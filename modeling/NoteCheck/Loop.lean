/-
# Bounded loops

A loop whose rounds go on or end with a result, with a bound on the number of rounds.
-/

namespace NoteCheck

/-- At most the given number of rounds, and what happens when they do not suffice. -/
def rounds {m : Type → Type} [Monad m] {α β : Type} (exhausted : m β) (round : α → m (α ⊕ β)) :
    Nat → α → m β
  | 0, _ => exhausted
  | n + 1, a => do
    match ← round a with
    | .inl a => rounds exhausted round n a
    | .inr b => return b

end NoteCheck
