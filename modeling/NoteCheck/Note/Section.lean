/-
# Sections of a note

A note is divided by headings, and code in it stands between fences. A section goes from the line
that introduces it to the next heading of the same or a higher level; what looks like a heading
between fences is code.
-/
import NoteCheck.Text.Blank
import NoteCheck.Text.Pieces
import NoteCheck.Text.WordChar

namespace NoteCheck.Note

open Text

/-- The level of a heading: the number of marks before a blank or the end of the line. -/
def headingLevel (line : List Char) : Option Nat :=
  let trimmed := trimStart line
  let level := (trimmed.takeWhile (· == '#')).length
  let rest := trimmed.dropWhile (· == '#')
  if level = 0 then none
  else if rest.head?.all isBlank then some level
  else none

/-- A character of the tag after an opening fence. -/
def isTagChar (c : Char) : Bool := isWordChar c || c == '+' || c == '.' || c == '-'

/-- The marks of a fence: three or more of one kind on a line of their own, which may carry a
tag. -/
def fence? (line : List Char) : Option (List Char) :=
  let trimmed := trimStart line
  match trimmed.head? with
  | none => none
  | some mark =>
    let marks := trimmed.takeWhile (· == mark)
    let tag := trim (trimmed.dropWhile (· == mark))
    if (mark = '`' ∨ mark = '~') ∧ 3 ≤ marks.length ∧ tag.all isTagChar then some marks else none

/-- A fence closes another if it begins with the same marks. -/
def closes (opening marks : List Char) : Bool := opening.isPrefixOf marks

/-- The lines before the next heading that is not below the given level; no level is below all.
An open fence keeps headings from counting until it is closed. -/
def untilHeading (level : Option Nat) : Option (List Char) → List (List Char) → List (List Char)
  | _, [] => []
  | some opening, line :: rest =>
    let opened := if (fence? line).any (closes opening) then none else some opening
    line :: untilHeading level opened rest
  | none, line :: rest =>
    match fence? line with
    | some marks => line :: untilHeading level (some marks) rest
    | none =>
      if (headingLevel line).any fun found => level.all (found ≤ ·) then []
      else line :: untilHeading level none rest

/-- The lines after the first one that begins with a marker. -/
def afterMarker? (marker : List Char) : List (List Char) → Option (List (List Char))
  | [] => none
  | line :: rest => if marker.isPrefixOf (trim line) then some rest else afterMarker? marker rest

/-- The lines of the section that a marker introduces. -/
def sectionLines? (text marker : List Char) : Option (List (List Char)) :=
  let marker := trim marker
  (afterMarker? marker (lines text)).map (untilHeading (headingLevel marker) none)

end NoteCheck.Note
