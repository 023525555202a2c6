/-
# Numbers and dates

What a configuration file may hold besides texts, arrays and tables. Each reader splits a text
into what it recognises and the rest.
-/
import NoteCheck.Text.Reading
import NoteCheck.Toml.Value

namespace NoteCheck.Toml

/-- Reading a text from left to right; it fails where the text is no configuration. -/
abbrev Read := StateT (List Char) Option

open Text

namespace Read

/-- Reads a text that has to stand there. -/
def expect (text : List Char) : Read Unit := do
  if !(← skip? text) then failure

/-- Reads a reader's text if it stands there. -/
def option {α : Type} (read : Read α) : Read (Option α) := fun cs =>
  match read cs with
  | some (a, rest) => some (some a, rest)
  | none => some (none, cs)

/-- What a reader reads, together with the text that it takes. -/
def withText {α : Type} (read : Read α) : Read (α × List Char) := do
  let before ← get
  let a ← read
  let after ← get
  return (a, before.take (before.length - after.length))

/-- A sign, if there is one. -/
def sign : Read (List Char) := do
  if ← skip? ['+'] then return ['+']
  else if ← skip? ['-'] then return ['-']
  else return []

end Read

open Read

namespace Number

/-- Digits with single underscores between them. -/
def areDigits (isDigit : Char → Bool) : List Char → Bool
  | [] => false
  | [c] => isDigit c
  | c :: '_' :: rest => isDigit c && areDigits isDigit rest
  | c :: rest => isDigit c && areDigits isDigit rest

/-- Digits of a class with single underscores between them. -/
def digits (isDigit : Char → Bool) : Read (List Char) := do
  let text ← takeWhile fun c => isDigit c || c == '_'
  if areDigits isDigit text then return text.filter (· != '_') else failure

/-- The value of a digit. -/
def digitValue (c : Char) : Nat :=
  if c.isDigit then c.toNat - '0'.toNat
  else if c.isUpper then c.toNat - 'A'.toNat + 10
  else c.toNat - 'a'.toNat + 10

/-- The value of digits in a base. -/
def ofDigits (base : Nat) (digits : List Char) : Nat :=
  digits.foldl (fun value c => value * base + digitValue c) 0

/-- Decimal digits without a zero before others. -/
def wholeDigits : Read (List Char) := do
  if ← skip? ['0'] then return ['0'] else digits Char.isDigit

/-- A number that fits into 64 bits with a sign. -/
def bounded (value : Int) : Read Value :=
  if -0x8000000000000000 ≤ value ∧ value < 0x8000000000000000 then return .integer value
  else failure

/-- A hexadecimal digit. -/
def isHexDigit (c : Char) : Bool :=
  c.isDigit || ('a' ≤ c && c ≤ 'f') || ('A' ≤ c && c ≤ 'F')

/-- A whole number. -/
def integer : Read Value := do
  if ← skip? ['0', 'x'] then bounded (ofDigits 16 (← digits isHexDigit))
  else if ← skip? ['0', 'o'] then
    bounded (ofDigits 8 (← digits fun c => '0' ≤ c && c ≤ '7'))
  else if ← skip? ['0', 'b'] then
    bounded (ofDigits 2 (← digits fun c => c == '0' || c == '1'))
  else
    let sign ← sign
    let value : Int := ofDigits 10 (← wholeDigits)
    bounded (if sign = ['-'] then -value else value)

/-- A positive number that is rounded to no double: at least halfway from the greatest double to
the next power of two. -/
def isTooLarge (mantissa : Nat) (exponent : Int) : Bool :=
  let bound := Nat.pow 2 1024 - Nat.pow 2 970
  if mantissa = 0 then false
  else if 400 < exponent then true
  else if 0 ≤ exponent then bound ≤ mantissa * Nat.pow 10 exponent.toNat
  else if 0 < exponent + (toString mantissa).length then
    bound * Nat.pow 10 (-exponent).toNat ≤ mantissa
  else false

/-- An exponent. -/
def exponent : Read Int := do
  if !(← skip? ['e']) then expect ['E']
  let sign ← sign
  let value : Int := ofDigits 10 (← digits Char.isDigit)
  return if sign = ['-'] then -value else value

/-- A number with a fraction or an exponent. -/
def decimal : Read Unit := do
  let sign ← sign
  let whole ← wholeDigits
  let fraction ← if ← skip? ['.'] then digits Char.isDigit else pure []
  let power ← option exponent
  if fraction.isEmpty && power.isNone then failure
  let mantissa := ofDigits 10 (whole ++ fraction)
  if sign != ['-'] && isTooLarge mantissa (power.getD 0 - fraction.length) then failure

/-- Infinity or no number. -/
def special : Read Unit := do
  let _ ← sign
  if !(← skip? ['i', 'n', 'f']) then expect ['n', 'a', 'n']

/-- A number with a fraction or an exponent, or a special one. -/
def float : Read Value := do
  let (_, text) ← withText (decimal <|> special)
  return .float (String.ofList text)

end Number

namespace Date

/-- A number of so many digits. -/
def fixed (count : Nat) : Read Nat := do
  let cs ← get
  let text := cs.take count
  if text.length = count ∧ text.all Char.isDigit then
    set (cs.drop count)
    return Number.ofDigits 10 text
  else failure

/-- A number of two digits between two bounds. -/
def between (low high : Nat) : Read Nat := do
  let value ← fixed 2
  if low ≤ value ∧ value ≤ high then return value else failure

/-- The number of days of a month. -/
def daysIn (year month : Nat) : Nat :=
  if month = 2 then
    if year % 4 = 0 ∧ (year % 100 ≠ 0 ∨ year % 400 = 0) then 29 else 28
  else if [4, 6, 9, 11].contains month then 30
  else 31

/-- A day of the calendar. -/
def day : Read Unit := do
  let year ← fixed 4
  expect ['-']
  let month ← between 1 12
  expect ['-']
  let day ← between 1 31
  if daysIn year month < day then failure

/-- A time of the day, with a fraction of a second if there is one. -/
def time : Read Unit := do
  let _ ← between 0 23
  expect [':']
  let _ ← between 0 59
  expect [':']
  let _ ← between 0 60
  if ← skip? ['.'] then
    if (← takeWhile Char.isDigit).isEmpty then failure

/-- The difference of a time from universal time. -/
def offset : Read Unit := do
  if ← skip? ['Z'] then return
  if ← skip? ['z'] then return
  if (← sign).isEmpty then failure
  let _ ← between 0 23
  expect [':']
  let _ ← between 0 59

/-- A time after a day. -/
def timeAfterDay : Read Unit := do
  if !(← skip? ['T']) then
    if !(← skip? ['t']) then expect [' ']
  time
  let _ ← option offset

/-- A date, a time, or both. -/
def read : Read Value := do
  let (_, text) ← withText ((do day; let _ ← option timeAfterDay) <|> time)
  return .dateTime (String.ofList text)

end Date

end NoteCheck.Toml
