/-
# The command line

The program answers its arguments over the files of the folder in which it is called. The names of
these files stand on the standard input, one on a line.
-/
import NoteCheck.CommandLine.Arguments
import NoteCheck.CommandLine.Response
import NoteCheck.Checker.Program
import NoteCheck.Shell.Launch
import NoteCheck.Toml.Document

open NoteCheck

/-- Reads the lines of a stream. -/
partial def readLines (input : IO.FS.Stream) : IO (List String) := do
  let line ← input.getLine
  if line.isEmpty then return []
  let lines ← readLines input
  return String.ofList (line.toList.filter (· != '\n')) :: lines

/-- Answers the arguments of the command line. -/
def main (arguments : List String) : IO UInt32 := do
  let names ← readLines (← IO.getStdin)
  let files ← names.mapM fun (name : String) => do
    return (name, Files.Entry.file (.ok (← IO.FS.readBinFile name).toList))
  let tree := Files.Tree.ofPaths "/notes" files
  let tools : CommandLine.Tools :=
    ⟨CommandLine.Request.ofArguments, Toml.readDocument?, tree.walk⟩
  let check (checker : CheckerConfig) (batch : Verification.Batch) :=
    (pure (Checker.check (Shell.host tree) checker batch) : IO _)
  let response ← CommandLine.respond tools check tree arguments
  IO.print response.output
  if let some error := response.error? then IO.eprintln s!"error: {error}"
  return response.exitStatus.toUInt32
