/-
# Identifiers

Words of ASCII letters, digits and underscores that do not begin with a digit.
-/
import NoteCheck.Text.Pieces

namespace NoteCheck.Text

/-- A character of an identifier. -/
def isIdentifierChar (c : Char) : Bool := c.isAlphanum || c == '_'

/-- The whole text is an identifier. -/
def isIdentifier (cs : List Char) : Bool :=
  cs.all isIdentifierChar && !cs.isEmpty && !(cs.head?.any Char.isDigit)

/-- The identifiers of a text, from left to right. Of a run of letters, digits and underscores
the digits at the beginning are left out. -/
def identifiers (cs : List Char) : List (List Char) :=
  ((piecesBetween (!isIdentifierChar ·) cs).map (·.dropWhile Char.isDigit)).filter (!·.isEmpty)

end NoteCheck.Text
