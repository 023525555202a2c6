/-
# Ranges of code points

Membership in a set of code points that is given as a list of closed ranges.
-/

namespace NoteCheck.Text

/-- A number lies in a list of ranges when it lies between the two ends of one of them. -/
def inRanges (ranges : List (Nat × Nat)) (n : Nat) : Bool :=
  ranges.any fun range => range.1 ≤ n && n ≤ range.2

end NoteCheck.Text
