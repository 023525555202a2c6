/-
# Requests

What the command line asks for: paths and what is to be done with them, or only a notice.
-/
import NoteCheck.Files.Path

namespace NoteCheck.CommandLine

open Files

/-- What the command line asks for. -/
structure Request where
  paths : List Path := []
  config : Option Path := none
  checker : Option String := none
  isVerbose : Bool := false
  deriving DecidableEq, Repr

/-- Why the command line asks for no verdict. -/
inductive Notice where
  | help
  | version
  | misuse
  deriving DecidableEq, Repr

end NoteCheck.CommandLine
