/-
# The order of paths

Components are strictly and totally ordered, and so are lists of what is ordered in this way, so
that sorting by them makes sense.
-/
import NoteCheck.Files.Path
import Mathlib.Data.List.Lex
import Mathlib.Data.String.Basic

namespace NoteCheck.Files

namespace Component

/-- A component comes before another when its kind does, or its name among names. -/
theorem lt_iff {a b : Component} :
    a < b ↔ a.rank < b.rank ∨ ∃ m n, a = name m ∧ b = name n ∧ m < n := by
  show a.before b = true ↔ _
  cases a <;> cases b <;> simp [before, rank]

/-- What comes before a component comes before all that come after it. -/
theorem lt_trans {a b c : Component} (h : a < b) (h' : b < c) : a < c := by
  rw [lt_iff] at h h' ⊢
  obtain h | ⟨m, n, rfl, rfl, h⟩ := h
  · obtain h' | ⟨m, n, rfl, rfl, -⟩ := h'
    · exact .inl (Nat.lt_trans h h')
    · exact .inl h
  · obtain h' | ⟨_, o, hn, rfl, h'⟩ := h'
    · exact .inl h'
    · obtain rfl := name.inj hn
      exact .inr ⟨m, o, rfl, rfl, h.trans h'⟩

/-- Of two different components one comes before the other. -/
theorem eq_of_not_lt {a b : Component} (h : ¬a < b) (h' : ¬b < a) : a = b := by
  rw [lt_iff, not_or] at h h'
  have hrank : a.rank = b.rank := Nat.le_antisymm (Nat.not_lt.1 h'.1) (Nat.not_lt.1 h.1)
  cases a with
  | name m =>
    cases b with
    | name n =>
      have hmn : ¬m < n := fun hlt => h.2 ⟨m, n, rfl, rfl, hlt⟩
      have hnm : ¬n < m := fun hlt => h'.2 ⟨n, m, rfl, rfl, hlt⟩
      rw [le_antisymm (not_lt.1 hnm) (not_lt.1 hmn)]
    | _ => cases hrank
  | _ =>
    cases b with
    | name => cases hrank
    | _ => first | rfl | cases hrank

instance : IsStrictTotalOrder Component (· < ·) where
  irrefl a h := by
    obtain h | ⟨m, n, rfl, hn, h⟩ := lt_iff.1 h
    · exact Nat.lt_irrefl _ h
    · obtain rfl := name.inj hn
      exact lt_irrefl _ h
  trans _ _ _ := lt_trans
  trichotomous _ _ := eq_of_not_lt

end Component

instance instIsStrictTotalOrderList {α : Type} [LT α] [IsStrictTotalOrder α (· < ·)] :
    IsStrictTotalOrder (List α) (· < ·) where
  irrefl l := List.lt_irrefl l
  trans _ _ _ := List.lt_trans
  trichotomous := Std.Trichotomous.trichotomous (r := List.Lex (· < ·))

end NoteCheck.Files
