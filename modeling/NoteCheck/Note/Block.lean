/-
# The block of a note

The code of a note stands in the first pair of fences of its section.
-/
import NoteCheck.Note.Section
import NoteCheck.Sorted
import NoteCheck.Text.Identifier

namespace NoteCheck.Note

/-- The code of a note. -/
structure Block where
  /-- The lines between the fences, each ended by a line break. -/
  code : String
  /-- The identifiers that occur in the code, sorted. -/
  identifiers : List String
  deriving DecidableEq, Repr

namespace Block

/-- The block of a note without code. -/
def empty : Block := ⟨"", []⟩

/-- There is no code. -/
def isEmpty (block : Block) : Bool := block.code.isEmpty

/-- The lines before the line that closes a fence, if there is one. -/
def beforeFence? (opening : List Char) : List (List Char) → Option (List (List Char))
  | [] => none
  | line :: rest =>
    if (fence? line).any (closes opening) then some []
    else (beforeFence? opening rest).map (line :: ·)

/-- The lines between the first fence and the one that closes it. -/
def fenced? : List (List Char) → Option (List (List Char))
  | [] => none
  | line :: rest =>
    match fence? line with
    | some opening => beforeFence? opening rest
    | none => fenced? rest

/-- The block with the given lines. Blank lines are no code. -/
def ofLines (body : List (List Char)) : Block :=
  if body.all (·.all Text.isBlank) then empty
  else
    let code := body.flatMap (· ++ ['\n'])
    ⟨String.ofList code, Sorted.ofList ((Text.identifiers code).map String.ofList)⟩

end Block

/-- The block in the section that a heading introduces. Without the section, without fences that
open and close, or without code between them it is empty. -/
def extractBlock (text heading : String) : Block :=
  match (sectionLines? text.toList heading.toList).bind Block.fenced? with
  | some body => Block.ofLines body
  | none => .empty

end NoteCheck.Note
