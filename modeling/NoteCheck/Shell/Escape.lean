/-
# Escapes

Backslashes in the texts that are written out: letters for characters of layout, and octal digits
for any byte.
-/

namespace NoteCheck.Shell

/-- The character that a letter after a backslash stands for. -/
def escapeLetter? : Char → Option Char
  | 'a' => some '\x07'
  | 'b' => some '\x08'
  | 'f' => some '\x0c'
  | 'n' => some '\n'
  | 'r' => some '\r'
  | 't' => some '\t'
  | 'v' => some '\x0b'
  | '\\' => some '\\'
  | _ => none

/-- An octal digit. -/
def isOctalDigit (c : Char) : Bool := '0' ≤ c && c ≤ '7'

/-- The byte of octal digits. -/
def octalByte (digits : List Char) : UInt8 :=
  digits.foldl (fun byte c => byte * 8 + (c.toNat - '0'.toNat).toUInt8) 0

/-- The bytes that a character stands for. -/
def charBytes (c : Char) : List UInt8 := c.toString.toUTF8.toList

/-- What stands after a backslash. -/
inductive Escaped where
  /-- Bytes, and the number of characters that stand for them. -/
  | bytes (bytes : List UInt8) (length : Nat)
  /-- The end of all output. -/
  | stop
  deriving DecidableEq, Repr

/-- What the text after a backslash stands for. Octal digits may have a zero before them where
that is a rule. -/
def escaped (hasZero : Bool) (cs : List Char) : Escaped :=
  let octal (skipped : Nat) :=
    let digits := ((cs.drop skipped).takeWhile isOctalDigit).take 3
    Escaped.bytes [octalByte digits] (skipped + digits.length)
  match cs with
  | [] => .bytes (charBytes '\\') 0
  | c :: _ =>
    if c = 'c' ∧ hasZero then .stop
    else if c = '0' ∧ hasZero then octal 1
    else if isOctalDigit c then octal 0
    else
      match escapeLetter? c with
      | some escaped => .bytes (charBytes escaped) 1
      | none => .bytes (charBytes '\\') 0

/-- The bytes of a text with escapes, of which some characters are passed over, and whether
output ends there. -/
def unescapeFrom (hasZero : Bool) : Nat → List Char → List UInt8 × Bool
  | _, [] => ([], false)
  | skipped + 1, _ :: cs => unescapeFrom hasZero skipped cs
  | 0, c :: cs =>
    if c = '\\' then
      match escaped hasZero cs with
      | .stop => ([], true)
      | .bytes bytes length =>
        let (rest, stops) := unescapeFrom hasZero length cs
        (bytes ++ rest, stops)
    else
      let (rest, stops) := unescapeFrom hasZero 0 cs
      (charBytes c ++ rest, stops)

/-- The bytes of a text with escapes, and whether output ends there. -/
def unescape (hasZero : Bool) (text : String) : List UInt8 × Bool :=
  unescapeFrom hasZero 0 text.toList

end NoteCheck.Shell
