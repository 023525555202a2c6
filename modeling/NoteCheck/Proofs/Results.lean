/-
# Results that may be errors

When a chain of steps, each of which may end in an error, comes to a result, and when two chains
come to results that stand in a relation.
-/
import Mathlib.Data.List.Perm.Basic

namespace NoteCheck.Results

variable {ε ε' α α' β β' : Type}

theorem bind_eq_ok {x : Except ε α} {f : α → Except ε β} {b : β} :
    (x >>= f) = .ok b ↔ ∃ a, x = .ok a ∧ f a = .ok b := by
  cases x with
  | error e => simp [bind, Except.bind]
  | ok a => simp [bind, Except.bind]

theorem bind_eq_error {x : Except ε α} {f : α → Except ε β} {e : ε} :
    (x >>= f) = .error e ↔ x = .error e ∨ ∃ a, x = .ok a ∧ f a = .error e := by
  cases x with
  | error e => simp [bind, Except.bind]
  | ok a => simp [bind, Except.bind]

theorem exists_of_isOk {x : Except ε α} (h : x.isOk = true) : ∃ a, x = .ok a := by
  cases x with
  | error e => cases h
  | ok a => exact ⟨a, rfl⟩

theorem pure_eq_ok {a b : α} : (pure a : Except ε α) = .ok b ↔ a = b := by
  show Except.ok a = Except.ok b ↔ a = b
  rw [Except.ok.injEq]

theorem map_eq_ok {x : Except ε α} {f : α → β} {b : β} :
    x.map f = .ok b ↔ ∃ a, x = .ok a ∧ f a = b := by
  cases x with
  | error e => simp [Except.map]
  | ok a => simp [Except.map]

theorem mapError_eq_ok {x : Except ε α} {f : ε → ε'} {a : α} :
    x.mapError f = .ok a ↔ x = .ok a := by
  cases x with
  | error e => simp [Except.mapError]
  | ok a => simp [Except.mapError]

/-- A list of steps comes to a list of results when each step comes to its result. -/
theorem mapM_eq_ok {f : α → Except ε β} {l : List α} {results : List β} :
    l.mapM f = .ok results ↔ List.Forall₂ (fun a b => f a = .ok b) l results := by
  induction l generalizing results with
  | nil =>
    rw [List.mapM_nil, List.forall₂_nil_left_iff]
    exact ⟨fun h => (Except.ok.inj h).symm, fun h => h ▸ rfl⟩
  | cons a l ih =>
    rw [List.mapM_cons, bind_eq_ok, List.forall₂_cons_left_iff]
    constructor
    · rintro ⟨b, hb, h⟩
      obtain ⟨bs, hbs, h⟩ := bind_eq_ok.1 h
      exact ⟨b, bs, hb, ih.1 hbs, (Except.ok.inj h).symm⟩
    · rintro ⟨b, bs, hb, hbs, rfl⟩
      exact ⟨b, hb, bind_eq_ok.2 ⟨bs, ih.2 hbs, rfl⟩⟩

/-- The results of a list of steps are what its steps come to. -/
theorem mem_of_mapM_eq_ok {f : α → Except ε β} {l : List α} {results : List β} {b : β}
    (h : l.mapM f = .ok results) : b ∈ results ↔ ∃ a ∈ l, f a = .ok b := by
  induction mapM_eq_ok.1 h with
  | nil => exact iff_of_false nofun nofun
  | @cons a b' l results hb hl ih =>
    rw [List.mem_cons, List.exists_mem_cons_iff, ih (mapM_eq_ok.2 hl), hb, Except.ok.injEq,
      eq_comm]

/-- A list of steps comes to results when every step comes to one. -/
theorem exists_mapM_eq_ok {f : α → Except ε β} {l : List α} :
    (∃ results, l.mapM f = .ok results) ↔ ∀ a ∈ l, ∃ b, f a = .ok b := by
  simp only [mapM_eq_ok]
  induction l with
  | nil => exact iff_of_true ⟨[], .nil⟩ nofun
  | cons a l ih =>
    rw [List.forall_mem_cons, ← ih]
    constructor
    · rintro ⟨_, _ | ⟨hb, hl⟩⟩
      exact ⟨⟨_, hb⟩, _, hl⟩
    · rintro ⟨⟨b, hb⟩, bs, hbs⟩
      exact ⟨b :: bs, .cons hb hbs⟩

/-- A list of steps ends in the error of the first step that ends in one. -/
theorem mapM_eq_error_iff {f : α → Except ε β} {l : List α} {e : ε} :
    l.mapM f = .error e ↔ ∃ before a after, l = before ++ a :: after ∧
      (∀ a' ∈ before, ∃ b, f a' = .ok b) ∧ f a = .error e := by
  induction l with
  | nil =>
    refine iff_of_false nofun ?_
    rintro ⟨before, a, after, h, -⟩
    simp at h
  | cons a l ih =>
    -- a step that succeeds only puts its value before those of the others
    have hpure : ∀ b, (do let bs ← l.mapM f; pure (b :: bs)) = .error e ↔ l.mapM f = .error e := by
      intro b
      rw [bind_eq_error]
      exact or_iff_left (by rintro ⟨bs, -, h⟩; cases h)
    rw [List.mapM_cons, bind_eq_error]
    simp only [hpure, ih]
    constructor
    · rintro (h | ⟨b, hb, before, a', after, rfl, hbefore, h⟩)
      · exact ⟨[], a, l, rfl, nofun, h⟩
      · exact ⟨a :: before, a', after, rfl, List.forall_mem_cons.2 ⟨⟨b, hb⟩, hbefore⟩, h⟩
    · rintro ⟨before, a', after, h, hbefore, he⟩
      cases before with
      | nil =>
        obtain ⟨rfl, rfl⟩ := List.cons.inj h
        exact .inl he
      | cons b before =>
        obtain ⟨rfl, rfl⟩ := List.cons.inj h
        obtain ⟨⟨b, hb⟩, hbefore⟩ := List.forall_mem_cons.1 hbefore
        exact .inr ⟨b, hb, before, a', after, rfl, hbefore, he⟩

/-! ## Two chains -/

/-- Both results are errors in one relation, or both are values in another. -/
inductive Related (E : ε → ε' → Prop) (R : α → α' → Prop) : Except ε α → Except ε' α' → Prop
  | error {e : ε} {e' : ε'} (h : E e e') : Related E R (.error e) (.error e')
  | ok {a : α} {a' : α'} (h : R a a') : Related E R (.ok a) (.ok a')

namespace Related

variable {E : ε → ε' → Prop} {R : α → α' → Prop} {S : β → β' → Prop}

theorem bind {x : Except ε α} {x' : Except ε' α'} {f : α → Except ε β} {f' : α' → Except ε' β'}
    (hx : Related E R x x')
    (hf : ∀ a a', x = .ok a → x' = .ok a' → R a a' → Related E S (f a) (f' a')) :
    Related E S (x >>= f) (x' >>= f') := by
  cases hx with
  | error h => exact .error h
  | ok h => exact hf _ _ rfl rfl h

theorem mapError {δ δ' : Type} {D : δ → δ' → Prop} {x : Except ε α} {x' : Except ε' α'}
    {f : ε → δ} {f' : ε' → δ'} (hx : Related E R x x') (hf : ∀ e e', E e e' → D (f e) (f' e')) :
    Related D R (x.mapError f) (x'.mapError f') := by
  cases hx with
  | error h => exact .error (hf _ _ h)
  | ok h => exact .ok h

/-- Steps in two orders come to the same results in two orders, or to errors that steps end in. -/
theorem mapM_of_perm {D : ε → ε → Prop} {f : α → Except ε β} {l l' : List α} (hperm : l.Perm l')
    (hf : ∀ a a' e e', f a = .error e → f a' = .error e' → D e e') :
    Related D List.Perm (l.mapM f) (l'.mapM f) := by
  cases hl : l.mapM f with
  | ok results =>
    obtain ⟨results', hresults', hperm'⟩ :=
      List.perm_comp_forall₂ hperm.symm (mapM_eq_ok.1 hl)
    rw [mapM_eq_ok.2 hresults']
    exact .ok hperm'.symm
  | error e =>
    cases hl' : l'.mapM f with
    | ok results' =>
      have hall := exists_mapM_eq_ok.1 ⟨results', hl'⟩
      obtain ⟨before, a, after, rfl, -, h⟩ := mapM_eq_error_iff.1 hl
      obtain ⟨b, hb⟩ := hall a (hperm.mem_iff.1 (by simp))
      rw [h] at hb
      cases hb
    | error e' =>
      obtain ⟨-, a, -, -, -, h⟩ := mapM_eq_error_iff.1 hl
      obtain ⟨-, a', -, -, -, h'⟩ := mapM_eq_error_iff.1 hl'
      exact .error (hf a a' e e' h h')

end Related

end NoteCheck.Results
