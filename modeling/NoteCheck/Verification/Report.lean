/-
# The report on a note

What a single note says about itself: nothing to verify, violations, or a clean block. A note
with operations and a block has a stub module, whatever the block holds.
-/
import NoteCheck.Code.Purity
import NoteCheck.Config
import NoteCheck.Files.Path
import NoteCheck.Note.Block
import NoteCheck.Stub

namespace NoteCheck.Verification

open Code Files Note Signature

/-- Why there is nothing to verify in a note. -/
inductive SkipReason where
  | noOperations
  | noBlock
  deriving DecidableEq, Repr

/-- The reason in words. -/
def SkipReason.describe : SkipReason → String
  | .noOperations => "no typed operations"
  | .noBlock => "no lambda representation"

/-- What is to be said about the block of a note. -/
inductive Finding where
  | notApplicable (reason : SkipReason)
  | violations (violations : List Violation)
  | clean
  deriving DecidableEq, Repr

/-- The report on a note. -/
structure Report where
  path : Path
  finding : Finding
  stub : Option String
  deriving DecidableEq, Repr

/-- The violations that a report lists. -/
def Report.violations (report : Report) : List Violation :=
  match report.finding with
  | .violations found => found
  | _ => []

/-- The report on the note with the given text. -/
def inspect (config : Config) (path : Path) (text : String) : Report :=
  let declared := readDeclarations text config.signatureMarker
  let block := extractBlock text config.lambdaHeading
  if declared.operations.isEmpty then ⟨path, .notApplicable .noOperations, none⟩
  else if block.isEmpty then ⟨path, .notApplicable .noBlock, none⟩
  else
    let found := violations block.code path
    let names := block.identifiers.foldl (fun names name => Sorted.insert name names) declared.names
    ⟨path, if found.isEmpty then .clean else .violations found,
      some (Stub.render declared.operations names block.code)⟩

end NoteCheck.Verification
