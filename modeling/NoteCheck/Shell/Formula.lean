/-
# Formulas

Whole numbers of 64 bits with the operators of the shell. Names stand for the values of
variables.
-/
import NoteCheck.Loop
import NoteCheck.Text.Identifier
import NoteCheck.Text.Reading

namespace NoteCheck.Shell

open Text

/-- Reading a formula, where names have values. It fails where a formula has no value. -/
abbrev FormulaRead := ReaderT (String → Int) (StateT (List Char) Option)

namespace Formula

/-- The number of 64 bits that a number becomes. -/
def wrap (value : Int) : Int := (Int64.ofInt value).toInt

/-- The truth value as a number. -/
def truth (b : Bool) : Int := if b then 1 else 0

/-- An operator between two numbers. -/
structure Operator where
  symbol : String
  combine? : Int → Int → Option Int

/-- A division, which has no value where the divisor is zero. -/
def divided (f : Int → Int → Int) (a b : Int) : Option Int := if b = 0 then none else some (f a b)

/-- An operator on the bits of two numbers. -/
def bitwise (f : Int64 → Int64 → Int64) (a b : Int) : Option Int :=
  some (f (Int64.ofInt a) (Int64.ofInt b)).toInt

/-- A comparison. -/
def comparing (f : Int → Int → Bool) (a b : Int) : Option Int := some (truth (f a b))

/-- The operators, from those that bind least to those that bind most. -/
def levels : List (List Operator) :=
  [[⟨"||", comparing fun a b => a != 0 || b != 0⟩], [⟨"&&", comparing fun a b => a != 0 && b != 0⟩],
    [⟨"|", bitwise (· ||| ·)⟩], [⟨"^", bitwise (· ^^^ ·)⟩], [⟨"&", bitwise (· &&& ·)⟩],
    [⟨"==", comparing (· == ·)⟩, ⟨"!=", comparing (· != ·)⟩],
    [⟨"<=", comparing (· ≤ ·)⟩, ⟨">=", comparing (· ≥ ·)⟩,
      ⟨"<", comparing (· < ·)⟩, ⟨">", comparing (· > ·)⟩],
    [⟨"<<", bitwise (· <<< ·)⟩, ⟨">>", bitwise (· >>> ·)⟩],
    [⟨"+", fun a b => some (a + b)⟩, ⟨"-", fun a b => some (a - b)⟩],
    [⟨"*", fun a b => some (a * b)⟩, ⟨"/", divided Int.tdiv⟩, ⟨"%", divided Int.tmod⟩]]

/-- A symbol of an operator is part of a longer one that stands in the text. -/
def isPartOfLonger (symbol : String) (cs : List Char) : Bool :=
  levels.flatten.any fun longer =>
    symbol.length < longer.symbol.length && longer.symbol.toList.isPrefixOf cs

/-- Passes over blanks. -/
def blanks : FormulaRead Unit := do let _ ← takeWhile (" \t\n".toList.contains ·)

/-- Takes an operator of a level, if one comes next. -/
def operator? (level : List Operator) : FormulaRead (Option Operator) := do
  blanks
  let cs ← get
  match level.find? fun o => o.symbol.toList.isPrefixOf cs && !isPartOfLonger o.symbol cs with
  | some operator =>
    set (cs.drop operator.symbol.length)
    return some operator
  | none => return none

/-- Numbers with operators between them. -/
def binary (operand : FormulaRead Int) : List (List Operator) → FormulaRead Int
  | [] => operand
  | level :: levels => do
    let first ← binary operand levels
    rounds failure (fun value => do
      match ← operator? level with
      | some operator =>
        match operator.combine? value (← binary operand levels) with
        | some value => return .inl (wrap value)
        | none => failure
      | none => return .inr value) ((← get).length + 1) first

/-- A sign applied to a number. -/
def signed (sign : Char) (value : Int) : Int :=
  if sign = '-' then wrap (-value)
  else if sign = '!' then truth (value == 0)
  else if sign = '~' then -value - 1
  else value

/-- The value of digits in a base. -/
def ofDigits? (base : Nat) (digits : List Char) : Option Int :=
  digits.foldlM (fun value c => do
    let digit := if c.isDigit then c.toNat - '0'.toNat else c.toLower.toNat - 'a'.toNat + 10
    if digit < base then some (value * base + digit) else none) 0

/-- A number as it is written: in base ten, eight or sixteen. -/
def number? : List Char → Option Int
  | '0' :: 'x' :: digits => ofDigits? 16 digits
  | '0' :: digits => ofDigits? 8 digits
  | digits => ofDigits? 10 digits

/-- A number, a name or a formula in brackets, after its signs. -/
def operandOver (formula : FormulaRead Int) : FormulaRead Int := do
  let signs ← takeWhile ("+-!~ \t\n".toList.contains ·)
  let value ←
    if ← skip? ['('] then
      let value ← formula
      blanks
      if ← skip? [')'] then pure value else failure
    else
      let word ← takeWhile isIdentifierChar
      if isIdentifier word then pure ((← read) (String.ofList word))
      else if word.isEmpty then failure
      else
        match number? word with
        | some value => pure (wrap value)
        | none => failure
  return signs.foldr signed value

/-- A formula with brackets inside each other at most to the given depth. -/
def within : Nat → FormulaRead Int
  | 0 => failure
  | depth + 1 => binary (operandOver (within depth)) levels

/-- The value of a formula, if it has one. Nothing at all has the value zero. -/
def value? (lookup : String → Int) (formula : List Char) : Option Int := do
  if formula.all (" \t\n".toList.contains ·) then return 0
  let read : FormulaRead Int := do
    let value ← within (formula.length + 1)
    blanks
    if (← get).isEmpty then return value else failure
  return (← (read.run lookup).run formula).1

end Formula

end NoteCheck.Shell
