/-
# Configuration

What a run can be told: which files are notes, which lines introduce their sections, and which
program checks the types.
-/

namespace NoteCheck

/-- A program and the arguments that stand before the files to check. -/
structure CheckerConfig where
  program : String := "mypy"
  arguments : List String := ["--show-error-codes", "--show-column-numbers"]
  deriving DecidableEq, Repr

/-- The configuration of a run. -/
structure Config where
  /-- The name of the files that are notes, where a folder is given. -/
  documentName : String := "notes.md"
  /-- The line that introduces the declarations of operations. -/
  signatureMarker : String := "## DSL Operations"
  /-- The heading of the section with the code. -/
  lambdaHeading : String := "## Lambda Representation"
  checker : CheckerConfig := {}
  deriving DecidableEq, Repr

end NoteCheck
