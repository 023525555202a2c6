/-
# Insertion into sorted lists

An insertion adds the key of the element to the keys of a list, and keeps the list strictly
sorted, so that no key is there twice.
-/
import NoteCheck.Sorted
import Mathlib.Data.List.Induction
import Mathlib.Data.List.Sort
import Mathlib.Tactic.Common

namespace NoteCheck.Sorted

variable {α κ : Type} [LT κ] [DecidableLT κ] {key : α → κ} {meet : α → α} {a b : α} {l : List α}

/-- The keys of a list stand in strictly increasing order. -/
def Increasing (key : α → κ) (l : List α) : Prop := l.Pairwise fun b c => key b < key c

section Order

variable [IsStrictTotalOrder κ (· < ·)]

omit [DecidableLT κ] in
theorem key_eq_of_not_lt {k k' : κ} (h : ¬k < k') (h' : ¬k' < k) : k = k' :=
  Std.Trichotomous.trichotomous k k' h h'

/-- Every element of a list after an insertion is the new one, an old one, or one that met the new
one because of its key. -/
theorem mem_insertWith (hb : b ∈ insertWith key meet a l) :
    b = a ∨ b ∈ l ∨ ∃ c ∈ l, key c = key a ∧ b = meet c := by
  induction l with
  | nil => exact .inl (List.mem_singleton.1 hb)
  | cons c l ih =>
    rw [insertWith] at hb
    split at hb
    · obtain rfl | hb := List.mem_cons.1 hb
      · exact .inl rfl
      · exact .inr (.inl hb)
    · split at hb
      · obtain rfl | hb := List.mem_cons.1 hb
        · exact .inr (.inl List.mem_cons_self)
        · obtain rfl | hb | ⟨d, hd, hkey, rfl⟩ := ih hb
          · exact .inl rfl
          · exact .inr (.inl (List.mem_cons_of_mem _ hb))
          · exact .inr (.inr ⟨d, List.mem_cons_of_mem _ hd, hkey, rfl⟩)
      · obtain rfl | hb := List.mem_cons.1 hb
        · exact .inr (.inr ⟨c, List.mem_cons_self, (key_eq_of_not_lt ‹_› ‹_›).symm, rfl⟩)
        · exact .inr (.inl (List.mem_cons_of_mem _ hb))

variable (hmeet : ∀ c, key c = key a → key (meet c) = key c)
include hmeet

/-- The keys after an insertion are the old ones and the one of the new element. -/
theorem mem_keys_insertWith {k : κ} :
    k ∈ (insertWith key meet a l).map key ↔ k = key a ∨ k ∈ l.map key := by
  induction l with
  | nil => simp [insertWith]
  | cons c l ih =>
    rw [insertWith]
    split
    · simp
    · split
      · rw [List.map_cons, List.mem_cons, ih, List.map_cons, List.mem_cons]
        tauto
      · have hkey : key a = key c := key_eq_of_not_lt ‹_› ‹_›
        rw [List.map_cons, List.map_cons, hmeet c hkey.symm, hkey, List.mem_cons]
        tauto

theorem increasing_insertWith (h : Increasing key l) :
    Increasing key (insertWith key meet a l) := by
  induction l with
  | nil => exact List.pairwise_singleton _ _
  | cons c l ih =>
    obtain ⟨hc, hl⟩ := List.pairwise_cons.1 h
    rw [insertWith]
    -- before the first larger key, further on, or in the place of the same key
    split
    · rename_i hlt
      refine List.pairwise_cons.2 ⟨?_, h⟩
      intro d hd
      obtain rfl | hd := List.mem_cons.1 hd
      · exact hlt
      · exact trans_of (· < ·) hlt (hc d hd)
    · split
      · rename_i hlt
        refine List.pairwise_cons.2 ⟨?_, ih hl⟩
        intro d hd
        obtain hd | hd := (mem_keys_insertWith hmeet).1 (List.mem_map_of_mem hd)
        · rw [hd]
          exact hlt
        · obtain ⟨e, he, hkey⟩ := List.mem_map.1 hd
          rw [← hkey]
          exact hc e he
      · refine List.pairwise_cons.2 ⟨?_, hl⟩
        intro d hd
        rw [hmeet c (key_eq_of_not_lt ‹_› ‹_›)]
        exact hc d hd

omit [DecidableLT κ] hmeet in
/-- A sorted list is determined by its elements. -/
theorem Increasing.eq_of_mem_iff {l' : List α} (h : Increasing key l) (h' : Increasing key l')
    (hmem : ∀ b, b ∈ l ↔ b ∈ l') : l = l' := by
  have hirrefl : Std.Irrefl fun b c : α => key b < key c := ⟨fun b => irrefl_of (· < ·) (key b)⟩
  have hantisymm : Std.Antisymm fun b c : α => key b < key c :=
    ⟨fun b c hbc hcb => absurd (trans_of (· < ·) hbc hcb) (irrefl_of (· < ·) (key b))⟩
  exact List.Pairwise.eq_of_mem_iff h h' hmem

omit [DecidableLT κ] hmeet in
/-- No key is there twice. -/
theorem Increasing.nodup (h : Increasing key l) : (l.map key).Nodup := by
  refine List.pairwise_map.2 (h.imp ?_)
  intro b c hlt heq
  rw [heq] at hlt
  exact irrefl_of (· < ·) _ hlt

end Order

section Put

variable [IsStrictTotalOrder κ (· < ·)]

/-- An element that is put into a sorted list replaces the one of the same key. -/
theorem mem_put_iff (h : Increasing key l) : b ∈ put key a l ↔ b = a ∨ b ∈ l ∧ key b ≠ key a := by
  have hne : ∀ {k k' : κ}, k < k' → k' ≠ k := by
    rintro k k' hlt rfl
    exact irrefl_of (· < ·) k' hlt
  rw [put]
  -- the new element goes before the first larger key, or replaces the element of its own key
  induction l with
  | nil => simp [insertWith]
  | cons c l ih =>
    obtain ⟨hc, hl⟩ := List.pairwise_cons.1 h
    rw [insertWith]
    split
    · rename_i hlt
      have hothers : ∀ d ∈ c :: l, key d ≠ key a := by
        intro d hd
        obtain rfl | hd := List.mem_cons.1 hd
        · exact hne hlt
        · exact hne (trans_of (· < ·) hlt (hc d hd))
      rw [List.mem_cons]
      exact or_congr_right ⟨fun hb => ⟨hb, hothers b hb⟩, And.left⟩
    · split
      · rename_i hlt
        have hfirst : key c ≠ key a := (hne hlt).symm
        rw [List.mem_cons, List.mem_cons]
        refine (or_congr_right (ih hl)).trans ?_
        constructor
        · rintro (rfl | rfl | ⟨hb, hkey⟩)
          · exact .inr ⟨.inl rfl, hfirst⟩
          · exact .inl rfl
          · exact .inr ⟨.inr hb, hkey⟩
        · rintro (rfl | ⟨rfl | hb, hkey⟩)
          · exact .inr (.inl rfl)
          · exact .inl rfl
          · exact .inr (.inr ⟨hb, hkey⟩)
      · have hkey : key a = key c := key_eq_of_not_lt ‹_› ‹_›
        have hothers : ∀ d ∈ l, key d ≠ key a := by
          intro d hd
          rw [hkey]
          exact hne (hc d hd)
        rw [List.mem_cons, List.mem_cons]
        constructor
        · rintro (rfl | hb)
          · exact .inl rfl
          · exact .inr ⟨.inr hb, hothers b hb⟩
        · rintro (rfl | ⟨rfl | hb, hdiffers⟩)
          · exact .inl rfl
          · exact absurd hkey.symm hdiffers
          · exact .inr hb

theorem increasing_put (h : Increasing key l) : Increasing key (put key a l) :=
  increasing_insertWith (fun _ hkey => hkey.symm) h

theorem increasing_insert {keys : List κ} {k : κ} (h : Increasing id keys) :
    Increasing id (insert k keys) :=
  increasing_insertWith (fun _ _ => rfl) h

theorem mem_insert_iff {keys : List κ} {k k' : κ} : k' ∈ insert k keys ↔ k' = k ∨ k' ∈ keys := by
  have hkeys : k' ∈ (insertWith id id k keys).map id ↔ k' = id k ∨ k' ∈ keys.map id :=
    mem_keys_insertWith fun _ _ => rfl
  rwa [List.map_id, List.map_id] at hkeys

/-- The keys that are put into a sorted list one after the other are there with the old ones. -/
theorem foldl_insert {keys : List κ} (h : Increasing id keys) (more : List κ) :
    Increasing id (more.foldl (fun keys k => insert k keys) keys) ∧
      ∀ k, k ∈ more.foldl (fun keys k => insert k keys) keys ↔ k ∈ more ∨ k ∈ keys := by
  induction more generalizing keys with
  | nil => exact ⟨h, fun k => by simp⟩
  | cons first more ih =>
    obtain ⟨hsorted, hmem⟩ := ih (increasing_insert h (k := first))
    refine ⟨hsorted, fun k => ?_⟩
    rw [List.foldl_cons, hmem, mem_insert_iff, List.mem_cons]
    tauto

/-- The keys of a list are sorted without repetition. -/
theorem nodup_ofList (keys : List κ) : (ofList keys).Nodup := by
  have hsorted : Increasing id (ofList keys) := (foldl_insert List.Pairwise.nil keys).1
  have hnodup := hsorted.nodup
  rwa [List.map_id] at hnodup

/-- No key of a list is lost when they are sorted. -/
theorem mem_ofList_iff {keys : List κ} {k : κ} : k ∈ ofList keys ↔ k ∈ keys := by
  rw [ofList, (foldl_insert List.Pairwise.nil keys).2]
  exact or_iff_left List.not_mem_nil

end Put

section SortBy

/-- An element that is put at its place is there beside the others. -/
theorem perm_place : (place key a l).Perm (a :: l) := by
  induction l with
  | nil => exact .rfl
  | cons b l ih =>
    rw [place]
    split
    · exact .rfl
    · exact (ih.cons b).trans (.swap a b l)

/-- A list sorted by a key holds its elements. -/
theorem perm_sortBy (key : α → κ) (l : List α) : (sortBy key l).Perm l := by
  rw [sortBy]
  induction l using List.reverseRecOn with
  | nil => exact .rfl
  | append_singleton l a ih =>
    rw [List.foldl_append]
    exact (perm_place.trans (ih.cons a)).trans (List.perm_append_singleton a l).symm

variable [IsStrictTotalOrder κ (· < ·)]

/-- An element whose key is not in a list is put where the order asks for it. -/
theorem increasing_place (h : Increasing key l) (hnew : key a ∉ l.map key) :
    Increasing key (place key a l) := by
  induction l with
  | nil => exact List.pairwise_singleton _ _
  | cons b l ih =>
    obtain ⟨hb, hl⟩ := List.pairwise_cons.1 h
    rw [List.map_cons, List.mem_cons, not_or] at hnew
    rw [place]
    split
    · rename_i hlt
      refine List.pairwise_cons.2 ⟨?_, h⟩
      intro c hc
      rcases List.mem_cons.1 hc with rfl | hc
      · exact hlt
      · exact trans_of (· < ·) hlt (hb c hc)
    · rename_i hnot
      have hlt : key b < key a := by
        by_contra hnot'
        exact hnew.1 (key_eq_of_not_lt hnot hnot')
      refine List.pairwise_cons.2 ⟨?_, ih hl hnew.2⟩
      intro c hc
      rcases List.mem_cons.1 (perm_place.mem_iff.1 hc) with rfl | hc
      · exact hlt
      · exact hb c hc

/-- A list whose elements have different keys is strictly sorted in the end. -/
theorem increasing_sortBy (h : (l.map key).Nodup) : Increasing key (sortBy key l) := by
  induction l using List.reverseRecOn with
  | nil => exact .nil
  | append_singleton l a ih =>
    rw [List.map_append, List.nodup_append] at h
    rw [sortBy, List.foldl_append]
    apply increasing_place (ih h.1)
    intro hmem
    exact h.2.2 _ (((perm_sortBy key l).map key).mem_iff.1 hmem) _ (List.mem_singleton_self _) rfl

end SortBy

end NoteCheck.Sorted
