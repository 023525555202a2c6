/-
# What a batch holds

A batch holds one module for every note that was added, under whatever spelling. The path is the
one under which the note was added first, and the text is the one that was added last.
-/
import NoteCheck.Verification.Batch
import NoteCheck.Proofs.Files.Order
import NoteCheck.Proofs.Sorted
import Mathlib.Data.List.Induction

namespace NoteCheck.Verification.Batch

open Files

/-- What identifies the note of a module. -/
def key (m : Module) : List Component := m.path.components

theorem ofList_concat (modules : List Module) (m : Module) :
    ofList (modules ++ [m]) = (ofList modules).add m := by
  rw [ofList, List.foldl_append]
  rfl

/-- The notes of a batch stand in the order of their paths, each once. -/
theorem increasing_ofList (modules : List Module) : Sorted.Increasing key (ofList modules) := by
  induction modules using List.reverseRecOn with
  | nil => exact List.Pairwise.nil
  | append_singleton modules m ih =>
    rw [ofList_concat]
    refine Sorted.increasing_insertWith ?_ ih
    intro old _
    rfl

/-- The notes of a batch are those that were added. -/
theorem mem_keys_ofList {modules : List Module} {k : List Component} :
    k ∈ (ofList modules).map key ↔ k ∈ modules.map key := by
  induction modules using List.reverseRecOn with
  | nil => rfl
  | append_singleton modules m ih =>
    rw [ofList_concat, add, List.map_append, List.mem_append, List.map_singleton,
      List.mem_singleton]
    refine (Sorted.mem_keys_insertWith ?_).trans (or_comm.trans (or_congr_left ih))
    intro old _
    rfl

/-- A module of a batch has the path of one that was added and the text of one, and both were
added for the same note. -/
theorem exists_of_mem_ofList {modules : List Module} {b : Module} (hb : b ∈ ofList modules) :
    ∃ m ∈ modules, ∃ m' ∈ modules, b = ⟨m.path, m'.text⟩ ∧ key m = key m' := by
  induction modules using List.reverseRecOn generalizing b with
  | nil => cases hb
  | append_singleton modules a ih =>
    have hold : ∀ {m}, m ∈ modules → m ∈ modules ++ [a] := List.mem_append_left [a]
    have hnew : a ∈ modules ++ [a] := List.mem_append_right modules (List.mem_singleton_self a)
    rw [ofList_concat] at hb
    obtain rfl | hb | ⟨c, hc, hkey, rfl⟩ := Sorted.mem_insertWith hb
    · exact ⟨b, hnew, b, hnew, rfl, rfl⟩
    · obtain ⟨m, hm, m', hm', rfl, hkey⟩ := ih hb
      exact ⟨m, hold hm, m', hold hm', rfl, hkey⟩
    · obtain ⟨m, hm, m', hm', rfl, -⟩ := ih hc
      exact ⟨m, hold hm, a, hnew, rfl, hkey⟩

theorem ofList_eq_nil_iff {modules : List Module} : ofList modules = [] ↔ modules = [] := by
  rw [← List.map_eq_nil_iff (f := key), ← List.map_eq_nil_iff (f := key),
    List.eq_nil_iff_forall_not_mem, List.eq_nil_iff_forall_not_mem]
  exact forall_congr' fun k => not_congr mem_keys_ofList

/-! ## Batches as maps -/

/-- What a batch holds for which note, whatever the spelling of its path. -/
def contents (batch : Batch) : List (List Component × String) :=
  batch.map fun m => (key m, m.text)

theorem increasing_contents_ofList (modules : List Module) :
    Sorted.Increasing Prod.fst (contents (ofList modules)) :=
  List.pairwise_map.2 (increasing_ofList modules)

/-- Where the modules of one note have one text, a batch holds what was added. -/
theorem mem_contents_ofList {modules : List Module} {k : List Component} {text : String}
    (hsame : ∀ m ∈ modules, ∀ m' ∈ modules, key m = key m' → m.text = m'.text) :
    (k, text) ∈ contents (ofList modules) ↔ ∃ m ∈ modules, key m = k ∧ m.text = text := by
  rw [contents, List.mem_map]
  constructor
  -- The path of a module in a batch and its text may have been added with different modules.
  · rintro ⟨b, hb, hpair⟩
    obtain ⟨m, -, m', hm', rfl, hkey⟩ := exists_of_mem_ofList hb
    obtain ⟨rfl, rfl⟩ := Prod.mk.inj hpair
    exact ⟨m', hm', hkey.symm, rfl⟩
  · rintro ⟨m, hm, rfl, rfl⟩
    obtain ⟨b, hb, hkey⟩ := List.mem_map.1 (mem_keys_ofList.2 (List.mem_map_of_mem hm))
    obtain ⟨a, -, m', hm', rfl, hkey'⟩ := exists_of_mem_ofList hb
    refine ⟨_, hb, Prod.ext hkey (hsame m' hm' m hm ?_)⟩
    exact hkey'.symm.trans hkey

/-- Modules in another order make a batch that holds the same. -/
theorem contents_ofList_eq_of_perm {modules modules' : List Module}
    (hperm : modules.Perm modules')
    (hsame : ∀ m ∈ modules, ∀ m' ∈ modules, key m = key m' → m.text = m'.text) :
    contents (ofList modules) = contents (ofList modules') := by
  refine (increasing_contents_ofList modules).eq_of_mem_iff (increasing_contents_ofList modules') ?_
  rintro ⟨k, text⟩
  rw [mem_contents_ofList hsame, mem_contents_ofList]
  · simp only [hperm.mem_iff]
  · simpa only [hperm.mem_iff] using hsame

end NoteCheck.Verification.Batch
