/-
# Batches

The stub modules that are checked together, sorted by the notes that they belong to. Two
spellings of one path are one note.
-/
import NoteCheck.Files.Path
import NoteCheck.Sorted

namespace NoteCheck.Verification

open Files

/-- A note and its stub module. -/
structure Module where
  path : Path
  text : String
  deriving DecidableEq, Repr

/-- Stub modules, sorted by the components of their paths. -/
abbrev Batch := List Module

namespace Batch

/-- A batch with one more module. For a note that is in the batch already, the new text counts,
and the path stays as it is written there. -/
def add (batch : Batch) (m : Module) : Batch :=
  Sorted.insertWith (·.path.components) (fun old => { old with text := m.text }) m batch

/-- The batch of modules that are added from the first on. -/
def ofList (modules : List Module) : Batch := modules.foldl add []

end Batch

end NoteCheck.Verification
