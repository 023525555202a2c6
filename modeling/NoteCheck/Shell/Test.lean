/-
# Tests

The command that compares texts and numbers and looks at files, and says yes or no by its status.
-/
import NoteCheck.Shell.Formula
import NoteCheck.Shell.Tool

namespace NoteCheck.Shell.Tool

/-- What a path leads to: nothing, a folder, or a file with bytes. -/
inductive Found where
  | nothing
  | folder
  | file (bytes : List UInt8)
  deriving DecidableEq, Repr

/-- Looks at a path. -/
def look (path : Files.Path) : Tool Found := do
  match (← read).file path with
  | .ok bytes => return .file bytes
  | .error .isAFolder => return .folder
  | .error _ => return .nothing

/-- A test of one text, if there is one under a name. -/
def unaryTest? (name text : String) : Option (Tool Bool) :=
  match name with
  | "-n" => some (return !text.isEmpty)
  | "-z" => some (return text.isEmpty)
  | "-e" | "-r" | "-w" => some do return (← look text) != .nothing
  | "-f" => some do
    match ← look text with
    | .file _ => return true
    | _ => return false
  | "-d" | "-x" => some do return (← look text) == .folder
  | "-s" => some do
    match ← look text with
    | .file bytes => return !bytes.isEmpty
    | found => return found == .folder
  | _ => none

/-- The number that a text is. -/
def testNumber (text : String) : Tool (Option Int) := do
  let cs := text.toList.dropWhile (· == ' ')
  let value := match cs with
    | '-' :: digits => (Formula.ofDigits? 10 digits).map (-·)
    | digits => Formula.ofDigits? 10 digits
  if cs.all Char.isDigit || (cs.tail.all Char.isDigit && cs.head? = some '-') then return value
  else
    complainHere s!"Illegal number: {text}"
    finish 2
    return none

/-- A comparison of two texts as numbers. -/
def comparedTest (compare : Int → Int → Bool) (a b : String) : Tool Bool := do
  let first ← testNumber a
  let second ← testNumber b
  match first, second with
  | some first, some second => return compare first second
  | _, _ => return false

/-- A test of two texts, if there is one under a name. -/
def binaryTest? (a name b : String) : Option (Tool Bool) :=
  match name with
  | "=" => some (return a = b)
  | "!=" => some (return a ≠ b)
  | "<" => some (return a < b)
  | ">" => some (return b < a)
  | "-eq" => some (comparedTest (· == ·) a b)
  | "-ne" => some (comparedTest (· != ·) a b)
  | "-lt" => some (comparedTest (· < ·) a b)
  | "-le" => some (comparedTest (· ≤ ·) a b)
  | "-gt" => some (comparedTest (· > ·) a b)
  | "-ge" => some (comparedTest (· ≥ ·) a b)
  | _ => none

/-- A test of so many arguments at most, and what is left of the arguments. -/
def testTerm : Nat → List String → Tool (Bool × List String)
  | _, [] => return (false, [])
  | 0, rest => return (false, rest)
  | depth + 1, first :: rest => do
    let binary := match rest with
      | name :: second :: others => (binaryTest? first name second).map (·, others)
      | _ => none
    match binary with
    | some (test, others) => return (← test, others)
    | none =>
      if first = "!" ∧ rest ≠ [] then
        let (holds, others) ← testTerm depth rest
        return (!holds, others)
      else
        match rest with
        | text :: others =>
          match unaryTest? first text with
          | some test => return (← test, others)
          | none => return (first ≠ "", rest)
        | [] => return (first ≠ "", rest)

/-- Tests with words for and and or between them, of which and binds more. -/
def testTerms : Nat → Bool → Bool → List String → Tool Bool
  | 0, _, _, _ => return false
  | depth + 1, whole, part, arguments => do
    let (holds, rest) ← testTerm (depth + 1) arguments
    let part := part && holds
    match rest with
    | "-a" :: rest => testTerms depth whole part rest
    | "-o" :: rest => testTerms depth (whole || part) true rest
    | [] => return whole || part
    | extra :: _ =>
      complainHere s!"{extra}: unexpected operator"
      finish 2
      return false

/-- Tests arguments, for a command with a name. -/
def testAs (name : String) (arguments : List String) : Tool Unit := do
  let atName (surroundings : Surroundings) :=
    { surroundings with place := s!"{surroundings.place}: {name}" }
  let holds ← withReader atName (testTerms (arguments.length + 1) false true arguments)
  if !holds then finish 1

/-- Tests arguments. -/
def test : List String → Tool Unit := testAs "test"

/-- Tests arguments up to a closing bracket. -/
def testInBrackets (arguments : List String) : Tool Unit := do
  if arguments.getLast? = some "]" then testAs "[" arguments.dropLast
  else
    complainHere "[: missing ]"
    finish 2

end NoteCheck.Shell.Tool
