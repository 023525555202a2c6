/-
# Positions

Places in the text of a block. Lines and columns count from one; a column is one more than the
number of bytes between the last line break and the place.
-/

namespace NoteCheck.Code

/-- A place in a text. Lines and columns are numbers of any size: a counter of 32 bits differs only
in texts of 2 ^ 32 bytes and more. -/
structure Position where
  line : Nat
  column : Nat
  deriving DecidableEq, Repr

namespace Position

/-- The place where every text begins. -/
def start : Position := ⟨1, 1⟩

/-- The place after one more character: a line break opens a line, any other character moves on
by the bytes of its encoding. -/
def next (p : Position) (c : Char) : Position :=
  if c = '\n' then ⟨p.line + 1, 1⟩ else ⟨p.line, p.column + c.utf8Size⟩

/-- The place after a text. -/
def advance (p : Position) (text : List Char) : Position :=
  text.foldl next p

/-- The place as messages write it, after the name of the text. -/
def render (p : Position) (source : String) : String :=
  s!"{source}:{p.line}:{p.column}"

@[simp]
theorem advance_nil (p : Position) : p.advance [] = p := rfl

@[simp]
theorem advance_cons (p : Position) (c : Char) (text : List Char) :
    p.advance (c :: text) = (p.next c).advance text := rfl

/-- Advancing over two texts in turn is advancing over the joined text. -/
theorem advance_append (p : Position) (a b : List Char) :
    p.advance (a ++ b) = (p.advance a).advance b := by
  simp [advance]

end Position

/-- The part of a text between two places. -/
structure Span where
  start : Position
  stop : Position
  deriving DecidableEq, Repr

namespace Span

/-- The line on which the part begins. -/
def line (s : Span) : Nat := s.start.line

/-- From the start of one part to the end of another. -/
def through (s t : Span) : Span := ⟨s.start, t.stop⟩

/-- A text on one line from a place on: the end counts its characters, not its bytes. -/
def ofText (p : Position) (text : List Char) : Span :=
  ⟨p, ⟨p.line, p.column + text.length⟩⟩

end Span

end NoteCheck.Code
