/-
# Printing

The commands that write out their arguments: as they are, or by a format in which directives stand
for arguments.
-/
import NoteCheck.Shell.Formula
import NoteCheck.Shell.Tool

namespace NoteCheck.Shell

namespace Tool

/-- Writes arguments with escapes on a line. A first argument that says so leaves out the line
break. -/
def echo (arguments : List String) : Tool Unit := do
  let (words, lineBreak) : List String × List UInt8 := match arguments with
    | "-n" :: words => (words, [])
    | words => (words, [10])
  let (bytes, stops) := unescape true (" ".intercalate words)
  write .output (if stops then bytes else bytes ++ lineBreak)

end Tool

/-- A directive of a format. -/
structure Directive where
  flags : List Char
  width : Nat
  precision : Option Nat
  conversion : Char
  deriving DecidableEq, Repr

/-- A part of a format. -/
inductive FormatPart where
  | bytes (bytes : List UInt8)
  | directive (directive : Directive)
  deriving DecidableEq, Repr

namespace FormatPart

/-- The number in the digits at the beginning of a text. -/
def leadingNumber (cs : List Char) : Nat :=
  (String.ofList (cs.takeWhile Char.isDigit)).toNat?.getD 0

/-- The directive after a percent sign, and the number of its characters. -/
def directive? (cs : List Char) : Option (Directive × Nat) :=
  let flags := cs.takeWhile "-+ #0".toList.contains
  let afterFlags := cs.drop flags.length
  let afterWidth := afterFlags.dropWhile Char.isDigit
  let (precision, rest) := match afterWidth with
    | '.' :: rest => (some (leadingNumber rest), rest.dropWhile Char.isDigit)
    | rest => (none, rest)
  rest.head?.map fun conversion =>
    (⟨flags, leadingNumber afterFlags, precision, conversion⟩, cs.length - rest.length + 1)

/-- The parts of a format, of which some characters are passed over. -/
def ofFormat : Nat → List Char → List FormatPart
  | _, [] => []
  | skipped + 1, _ :: cs => ofFormat skipped cs
  | 0, '%' :: '%' :: cs => bytes (charBytes '%') :: ofFormat 0 cs
  | 0, c :: cs =>
    if c = '%' then
      match directive? cs with
      | some (found, length) => directive found :: ofFormat length cs
      | none => bytes (charBytes c) :: ofFormat 0 cs
    else if c = '\\' then
      match escaped false cs with
      | .bytes found length => bytes found :: ofFormat length cs
      | .stop => []
    else bytes (charBytes c) :: ofFormat 0 cs

end FormatPart

namespace Directive

/-- A text with blanks before or after it, up to the width of the directive. -/
def pad (directive : Directive) (bytes : List UInt8) : List UInt8 :=
  let blanks := List.replicate (directive.width - bytes.length) (32 : UInt8)
  if directive.flags.contains '-' then bytes ++ blanks else blanks ++ bytes

/-- A number in digits, after its sign and up to the precision or the width. -/
def number (directive : Directive) (sign digits : List Char) : List UInt8 :=
  let isFilled := directive.flags.contains '0' && !directive.flags.contains '-'
  let length := match directive.precision with
    | some precision => precision
    | none => if isFilled then directive.width - sign.length else 0
  let zeros := List.replicate (length - digits.length) '0'
  directive.pad (Text.Utf8.encode (String.ofList (sign ++ zeros ++ digits)))

/-- The digits of a number in a base. -/
def digits (base : Nat) (n : Nat) : List Char := Nat.toDigits base n

/-- The sign of a number as flags ask for it. -/
def sign (directive : Directive) (value : Int) : List Char :=
  if value < 0 then ['-']
  else if directive.flags.contains '+' then ['+']
  else if directive.flags.contains ' ' then [' ']
  else []

/-- The number of 64 bits without a sign that has the same bits. -/
def unsigned (value : Int) : Nat := (value % 0x10000000000000000).toNat

/-- The number that an argument is. -/
def number? (argument : String) : Option Int :=
  match argument.toList with
  | [] => some 0
  | '\'' :: c :: _ => some c.toNat
  | '"' :: c :: _ => some c.toNat
  | '-' :: digits => if digits.isEmpty then none else (Formula.number? digits).map (-·)
  | '+' :: digits => if digits.isEmpty then none else Formula.number? digits
  | digits => Formula.number? digits

/-- The bytes for an argument, whether output ends with them, and a number for the argument if it
had to be one. -/
def render (directive : Directive) (argument : String) : List UInt8 × Bool × Option Int :=
  let value := number? argument
  let n := value.getD 0
  let short (bytes : List UInt8) := match directive.precision with
    | some precision => bytes.take precision
    | none => bytes
  match directive.conversion with
  | 's' => (directive.pad (short (Text.Utf8.encode argument)), false, some 0)
  | 'b' =>
    let (bytes, stops) := unescape true argument
    (directive.pad (short bytes), stops, some 0)
  | 'c' => (directive.pad ((Text.Utf8.encode argument).take 1), false, some 0)
  | 'o' => (directive.number [] (digits 8 (unsigned n)), false, value)
  | 'u' => (directive.number [] (digits 10 (unsigned n)), false, value)
  | 'x' => (directive.number [] (digits 16 (unsigned n)), false, value)
  | 'X' => (directive.number [] ((digits 16 (unsigned n)).map Char.toUpper), false, value)
  | _ => (directive.number (directive.sign n) (digits 10 n.natAbs), false, value)

end Directive

namespace Tool

/-- Writes one round of a format with arguments; the result is the arguments that are left, or
nothing where output ends. -/
def printRound : List FormatPart → List String → Tool (Option (List String))
  | [], arguments => return some arguments
  | .bytes bytes :: parts, arguments => do
    write .output bytes
    printRound parts arguments
  | .directive directive :: parts, arguments => do
    if !"sbcoudixX".toList.contains directive.conversion then
      complainHere s!"printf: %{directive.conversion}: invalid directive"
      finish 2
      return none
    let argument := arguments.headD ""
    let (bytes, stops, value) := directive.render argument
    if value.isNone then
      complainHere s!"printf: {argument}: expected numeric value"
      finish 1
    write .output bytes
    if stops then return none else printRound parts arguments.tail

/-- Writes arguments by a format, again and again as long as arguments are left. -/
def printf (arguments : List String) : Tool Unit := do
  match if arguments.head? = some "--" then arguments.tail else arguments with
  | [] =>
    complainHere "printf: usage: printf format [arg ...]"
    finish 2
  | format :: arguments =>
    let parts := FormatPart.ofFormat 0 format.toList
    rounds (pure ()) (fun arguments => do
      match ← printRound parts arguments with
      | none | some [] => return .inr ()
      | some left =>
        if left.length = arguments.length then return .inr () else return .inl left)
      (arguments.length + 1) arguments

end Tool

end NoteCheck.Shell
