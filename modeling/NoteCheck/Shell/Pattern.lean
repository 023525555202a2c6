/-
# Patterns

A pattern matches whole texts: a star matches any text, a question mark any character, and
brackets a character out of a set. Quoted characters stand for themselves.
-/

namespace NoteCheck.Shell

/-- A character of a word, and whether quotes keep it from having a meaning. -/
structure Glyph where
  char : Char
  isQuoted : Bool
  deriving DecidableEq, Repr

/-- The characters of glyphs. -/
def Glyph.plainText (glyphs : List Glyph) : String := String.ofList (glyphs.map Glyph.char)

/-- An element of a pattern. -/
inductive Element where
  /-- Any text. -/
  | star
  /-- A character inside of some ranges, or outside of all of them. -/
  | one (isOutside : Bool) (ranges : List (Char × Char))
  deriving DecidableEq, Repr

namespace Element

/-- The element that a character stands for outside of brackets. -/
def ofGlyph (glyph : Glyph) : Element :=
  if glyph = ⟨'*', false⟩ then star
  else if glyph = ⟨'?', false⟩ then one true []
  else one false [(glyph.char, glyph.char)]

/-- The ranges that a set in brackets lists. -/
def ranges : List Glyph → List (Char × Char)
  | low :: ⟨'-', false⟩ :: high :: rest => (low.char, high.char) :: ranges rest
  | glyph :: rest => (glyph.char, glyph.char) :: ranges rest
  | [] => []

/-- The set that glyphs after an opening bracket list, and how many glyphs it takes. -/
def set? (glyphs : List Glyph) : Option (Element × Nat) :=
  let isOutside := glyphs.head?.any fun g => g = ⟨'!', false⟩ || g = ⟨'^', false⟩
  let listed := if isOutside then glyphs.tail else glyphs
  let further := listed.tail.takeWhile (· != ⟨']', false⟩)
  if further.length < listed.tail.length then
    some (one isOutside (ranges (listed.take (further.length + 1))),
      glyphs.length - listed.length + further.length + 2)
  else none

/-- The elements of glyphs, of which the first ones are passed over. -/
def ofGlyphs : Nat → List Glyph → List Element
  | _, [] => []
  | skipped + 1, _ :: glyphs => ofGlyphs skipped glyphs
  | 0, glyph :: glyphs =>
    match if glyph = ⟨'[', false⟩ then set? glyphs else none with
    | some (element, taken) => element :: ofGlyphs taken glyphs
    | none => ofGlyph glyph :: ofGlyphs 0 glyphs

end Element

/-- A text matches elements. -/
def isMatch : List Element → List Char → Bool
  | [], cs => cs.isEmpty
  | .star :: pattern, cs => (List.range (cs.length + 1)).any fun n => isMatch pattern (cs.drop n)
  | .one isOutside ranges :: pattern, cs =>
    match cs with
    | [] => false
    | c :: cs => (ranges.any (fun (low, high) => low ≤ c && c ≤ high) != isOutside) &&
      isMatch pattern cs

/-- A text matches a pattern. -/
def isMatchOf (pattern : List Glyph) (cs : List Char) : Bool :=
  isMatch (Element.ofGlyphs 0 pattern) cs

/-- Which match of a pattern is cut off a text. -/
structure Cut where
  isAtEnd : Bool
  isLongest : Bool
  deriving DecidableEq, Repr

/-- A text without the match of a pattern at its beginning or its end. -/
def Cut.apply (cut : Cut) (pattern : List Glyph) (cs : List Char) : List Char :=
  let lengths := if cut.isAtEnd = cut.isLongest then List.range (cs.length + 1)
    else (List.range (cs.length + 1)).reverse
  let isCutAt (n : Nat) := isMatchOf pattern (if cut.isAtEnd then cs.drop n else cs.take n)
  match lengths.find? isCutAt with
  | some n => if cut.isAtEnd then cs.take n else cs.drop n
  | none => cs

end NoteCheck.Shell
