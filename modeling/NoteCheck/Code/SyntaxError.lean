/-
# Syntax errors

What can be wrong with the text of a block, and where.
-/
import NoteCheck.Code.Position
import NoteCheck.Text.Quoted

namespace NoteCheck.Code

/-- What is wrong. -/
inductive SyntaxFault where
  /-- No token begins with this character. -/
  | unrecognised (character : Char)
  /-- A token, shown by the text, stands where none of its kind may. -/
  | unexpected (shown : String)
  /-- The same, with a sentence on what could stand there. -/
  | unexpectedFor (shown expectation : String)
  /-- A line is indented less than the one before it, but as much as no line around it. -/
  | inconsistentIndentation
  /-- A string literal has no end. -/
  | unterminatedString
  deriving DecidableEq, Repr

namespace SyntaxFault

/-- The name of the fault. -/
def name : SyntaxFault → String
  | .unrecognised _ => "UnrecognisedToken"
  | .unexpected _ => "UnexpectedToken"
  | .unexpectedFor _ _ => "UnexpectedTokenDetailed"
  | .inconsistentIndentation => "InconsistentIndentation"
  | .unterminatedString => "UnterminatedString"

/-- The sentence that explains the fault, if there is one. -/
def tip : SyntaxFault → Option String
  | .unrecognised _ => none
  | .unexpected shown => some s!"Unexpected token: `{shown}`"
  | .unexpectedFor shown expectation => some s!"Unexpected token: `{shown}`, {expectation}"
  | .inconsistentIndentation => some "Dedent does not match any enclosing indentation level"
  | .unterminatedString => some "String literal is never closed"

/-- The fault in short. -/
def summary : SyntaxFault → String
  | .unrecognised c => "unrecognised token: " ++ String.ofList (Text.quoted [c])
  | .unexpected shown => "unexpected token: " ++ String.ofList (Text.quoted shown.toList)
  | .unexpectedFor shown expectation =>
    "unexpected token (" ++ String.ofList (Text.quoted expectation.toList) ++ "): " ++
      String.ofList (Text.quoted shown.toList)
  | .inconsistentIndentation => "inconsistent indentation"
  | .unterminatedString => "unterminated string literal"

/-- The fault as a sentence: the explanation if there is one, and otherwise the summary. -/
def message (fault : SyntaxFault) : String :=
  match fault.tip with
  | some tip => s!"{fault.name} ({tip})"
  | none => s!"{fault.name}: {fault.summary}"

end SyntaxFault

/-- A fault and the place where it was found. -/
structure SyntaxError where
  fault : SyntaxFault
  position : Position
  deriving DecidableEq, Repr

end NoteCheck.Code
