/-
# Blank characters

The property `White_Space` of the character database, and texts without the blanks around them.
-/
import NoteCheck.Text.Ranges

namespace NoteCheck.Text

/-- The blank characters: tab to carriage return, space, next line, and the spaces and separators
beyond ASCII. -/
def blankRanges : List (Nat × Nat) := [
  (0x9, 0xD), (0x20, 0x20), (0x85, 0x85), (0xA0, 0xA0), (0x1680, 0x1680), (0x2000, 0x200A),
  (0x2028, 0x2029), (0x202F, 0x202F), (0x205F, 0x205F), (0x3000, 0x3000)]

/-- A blank character. -/
def isBlank (c : Char) : Bool := inRanges blankRanges c.toNat

/-- A text without the blanks at its beginning. -/
def trimStart (cs : List Char) : List Char := cs.dropWhile isBlank

/-- A text without the blanks at its end. -/
def trimEnd (cs : List Char) : List Char := (cs.reverse.dropWhile isBlank).reverse

/-- A text without the blanks around it. -/
def trim (cs : List Char) : List Char := trimEnd (trimStart cs)

/-- Trimming does not lengthen a text. -/
theorem length_trim_le (cs : List Char) : (trim cs).length ≤ cs.length := by
  have hend : (trim cs).length ≤ (trimStart cs).length := by
    have h := (List.dropWhile_suffix (l := (trimStart cs).reverse) isBlank).length_le
    simpa [trim, trimEnd] using h
  exact Nat.le_trans hend (List.dropWhile_suffix _).length_le

end NoteCheck.Text
