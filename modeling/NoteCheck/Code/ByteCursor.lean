/-
# A cursor on a text

A place in a text that is moved by hand, by a number of bytes or over a given text. Moving by
bytes leaves the line as it is; moving over a text counts the line breaks of that text, whether
or not it is what stands at the cursor.
-/
import NoteCheck.Code.Position

namespace NoteCheck.Code

/-- A cursor on a text. -/
structure ByteCursor where
  /-- The text from the character on in which the cursor stands. -/
  rest : List Char
  /-- The bytes between the beginning of that character and the cursor. -/
  inside : Nat := 0
  /-- The place of the cursor. -/
  here : Position := .start
  deriving DecidableEq, Repr

namespace ByteCursor

/-- A cursor at the beginning of a text. -/
def ofText (text : String) : ByteCursor := { rest := text.toList }

/-- The text after a number of bytes, and the bytes that the number goes beyond its beginning. -/
def dropBytes : Nat → List Char → List Char × Nat
  | n, [] => ([], n)
  | n, c :: cs => if c.utf8Size ≤ n then dropBytes (n - c.utf8Size) cs else (c :: cs, n)

/-- Moves by a number of bytes, to the given place. -/
def moveTo (cursor : ByteCursor) (bytes : Nat) (here : Position) : ByteCursor :=
  let (rest, inside) := dropBytes (cursor.inside + bytes) cursor.rest
  { rest, inside, here }

/-- Moves by a number of bytes on the same line. -/
def advanceBytes (cursor : ByteCursor) (n : Nat) : ByteCursor :=
  cursor.moveTo n { cursor.here with column := cursor.here.column + n }

/-- Moves over a text. -/
def advanceOver (cursor : ByteCursor) (text : String) : ByteCursor :=
  cursor.moveTo text.utf8ByteSize (cursor.here.advance text.toList)

/-- The text from the cursor on. -/
def remainder (cursor : ByteCursor) : String := String.ofList cursor.rest

/-- The character at the cursor; at the end it is the null character. -/
def current (cursor : ByteCursor) : Char := cursor.rest.headD '\x00'

/-- The cursor has passed the whole text. -/
def atEnd (cursor : ByteCursor) : Bool := cursor.rest.isEmpty

/-- Where a text would stand that begins at the cursor and stays on its line. -/
def spanOf (cursor : ByteCursor) (text : String) : Span := .ofText cursor.here text.toList

end ByteCursor

end NoteCheck.Code
