/-
# Texts

Texts between quotes. Double quotes allow escapes, single quotes do not; three quotes allow line
breaks. The readers start after the opening quotes and take the closing ones with them.
-/
import NoteCheck.Toml.Number

namespace NoteCheck.Toml

open Read Text

namespace QuotedText

/-- A character that may stand for itself. -/
def isPlain (c : Char) : Bool :=
  c == '\t' || (0x20 ≤ c.toNat && c.toNat != 0x7F)

/-- A character put before what a reader reads. -/
def before (c : Char) (read : Option (List Char × List Char)) : Option (List Char × List Char) :=
  read.map fun (text, rest) => (c :: text, rest)

/-- The character that an escape of one character stands for. -/
def escape? : Char → Option Char
  | 'b' => some '\x08'
  | 't' => some '\t'
  | 'n' => some '\n'
  | 'f' => some '\x0c'
  | 'r' => some '\r'
  | '"' => some '"'
  | '\\' => some '\\'
  | _ => none

/-- The character with a code point in hexadecimal digits. -/
def codePoint? (digits : List Char) : Option Char :=
  if digits.all Number.isHexDigit then
    let value := Number.ofDigits 16 digits
    if value < 0xD800 ∨ 0xDFFF < value ∧ value < 0x110000 then some (Char.ofNat value) else none
  else none

/-- A text in double quotes. -/
def basic : List Char → Option (List Char × List Char)
  | [] => none
  | '"' :: rest => some ([], rest)
  | '\\' :: 'u' :: a :: b :: c :: d :: rest => do
    before (← codePoint? [a, b, c, d]) (basic rest)
  | '\\' :: 'U' :: a :: b :: c :: d :: e :: f :: g :: h :: rest => do
    before (← codePoint? [a, b, c, d, e, f, g, h]) (basic rest)
  | '\\' :: c :: rest => do before (← escape? c) (basic rest)
  | c :: rest => if isPlain c && c != '\\' then before c (basic rest) else none

/-- A text in single quotes. -/
def literal : List Char → Option (List Char × List Char)
  | [] => none
  | '\'' :: rest => some ([], rest)
  | c :: rest => if isPlain c then before c (literal rest) else none

/-- The end of a text in triple quotes, which may have one or two quotes before it. -/
def closeTriple? (quote : Char) (cs : List Char) : Option (List Char × List Char) :=
  let count := (cs.takeWhile (· == quote)).length
  if count < 3 then none
  else
    let own := Nat.min (count - 3) 2
    some (List.replicate own quote, cs.drop (own + 3))

/-- What a backslash before a line break does to what follows. -/
inductive Joint where
  /-- Nothing is being joined. -/
  | off
  /-- After the backslash only blanks may stand before the line break. -/
  | opened
  /-- Blanks and line breaks are left out. -/
  | joining
  deriving DecidableEq, Repr

/-- A text in three double quotes. A backslash at the end of a line leaves out the line break and
the blanks after it. -/
def basicLines : Joint → List Char → Option (List Char × List Char)
  | _, [] => none
  | .opened, '\r' :: '\n' :: rest => basicLines .joining rest
  | .opened, c :: rest =>
    if c = ' ' ∨ c = '\t' then basicLines .opened rest
    else if c = '\n' then basicLines .joining rest
    else none
  | joint, '\r' :: '\n' :: rest =>
    if joint = .joining then basicLines .joining rest else before '\n' (basicLines .off rest)
  | _, '"' :: rest =>
    match closeTriple? '"' ('"' :: rest) with
    | some (quotes, after) => some (quotes, after)
    | none => before '"' (basicLines .off rest)
  | _, '\\' :: 'u' :: a :: b :: c :: d :: rest => do
    before (← codePoint? [a, b, c, d]) (basicLines .off rest)
  | _, '\\' :: 'U' :: a :: b :: c :: d :: e :: f :: g :: h :: rest => do
    before (← codePoint? [a, b, c, d, e, f, g, h]) (basicLines .off rest)
  | _, '\\' :: c :: rest =>
    match escape? c with
    | some escaped => before escaped (basicLines .off rest)
    | none => basicLines .opened (c :: rest)
  | joint, c :: rest =>
    if joint = .joining ∧ (c = ' ' ∨ c = '\t' ∨ c = '\n') then basicLines .joining rest
    else if c = '\n' ∨ isPlain c ∧ c ≠ '\\' then before c (basicLines .off rest)
    else none

/-- A text in three single quotes. -/
def literalLines : List Char → Option (List Char × List Char)
  | [] => none
  | '\r' :: '\n' :: rest => before '\n' (literalLines rest)
  | c :: rest =>
    match closeTriple? '\'' (c :: rest) with
    | some (quotes, after) => some (quotes, after)
    | none => if isPlain c || c == '\n' then before c (literalLines rest) else none

/-- A text without the line break at its beginning. -/
def afterBreak : List Char → List Char
  | '\n' :: rest => rest
  | '\r' :: '\n' :: rest => rest
  | cs => cs

/-- A text in quotes on one line. -/
def readLine : Read String := do
  let text ← if ← skip? ['"'] then basic else do expect ['\'']; literal
  return String.ofList text

/-- A text in quotes. -/
def read : Read String := do
  if ← skip? ['"', '"', '"'] then
    return String.ofList (← fun cs => basicLines .off (afterBreak cs))
  else if ← skip? ['\'', '\'', '\''] then
    return String.ofList (← fun cs => literalLines (afterBreak cs))
  else readLine

end QuotedText

end NoteCheck.Toml
