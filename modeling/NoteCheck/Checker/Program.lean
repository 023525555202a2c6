/-
# Checkers

A checker is a program that is called once, with the files for the modules of a batch after its
own arguments. What it says is what it writes: first its output, then its errors.
-/
import NoteCheck.Checker.Host
import NoteCheck.Checker.Scratch
import NoteCheck.Verification.Run

namespace NoteCheck.Checker

open Files Verification

/-- The files for the modules of a batch in a folder, each with its bytes. -/
def moduleFiles (scratch : Path) (batch : Batch) : List (Path × List UInt8) :=
  (scratchFiles batch).map fun (name, text) => (scratch.join [name], Text.Utf8.encode text)

/-- Writes a file, unless the system refuses it. -/
def writeFile (host : Host) (store : Store) (file : Path × List UInt8) : Except RunError Store :=
  match host.refusal? store file.1 file.2 with
  | some cause => .error (.access file.1 cause)
  | none => .ok (store.write file.1 file.2)

/-- Writes the files for the modules of a batch one after the other, and gives their paths. -/
def writeModules (host : Host) (scratch : Path) (batch : Batch) :
    Except RunError (Store × List Path) := do
  let files := moduleFiles scratch batch
  let store ← files.foldlM (writeFile host) host.store
  return (store, files.map Prod.fst)

/-- What the ending of a program says about a batch. A program that a signal ended has failed. -/
def outcome (ending : Ending) : Outcome where
  exitCode := ending.status.getD 1
  output := String.ofList
    (Text.Utf8.decodeLossy ending.output ++ Text.Utf8.decodeLossy ending.errors)

/-- Lets a program check a batch. -/
def check (host : Host) (checker : CheckerConfig) (batch : Batch) : Except RunError Outcome := do
  let scratch ← host.scratch.mapError (.access host.temporary)
  let (store, files) ← writeModules host scratch batch
  match host.launch store checker.program (checker.arguments ++ files) with
  | .ok ending => return outcome ending
  | .error cause => throw (.launch checker.program cause)

end NoteCheck.Checker
