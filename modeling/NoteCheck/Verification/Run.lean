/-
# Runs

A run looks at every note before any module is checked. What it finds decides: an error, or
violations, which reject the run, or a batch of modules for the checker. The checker is called
once for the whole batch, and only then.
-/
import NoteCheck.Files.Discovery
import NoteCheck.Verification.Batch
import NoteCheck.Verification.Report

namespace NoteCheck.Verification

open Code Files

/-- Why a run comes to no verdict. -/
inductive RunError where
  | notFound (path : Path)
  | noFilesFound
  | noBlocks
  | access (path : Path) (cause : SystemError)
  | launch (program : String) (cause : SystemError)
  deriving DecidableEq, Repr

namespace RunError

/-- What caused the error, in words. -/
def cause? : RunError → Option String
  | access _ cause => some cause.message
  | launch _ cause => some cause.message
  | _ => none

/-- The error in words. -/
def message : RunError → String
  | notFound path => s!"path not found: {path}"
  | noFilesFound => "no files found"
  | noBlocks => "no lambda representations found"
  | access path cause => s!"failed to access {path}: {cause.message}"
  | launch program cause => s!"failed to launch type checker `{program}`: {cause.message}"

end RunError

/-- What a checker says about a batch. -/
structure Outcome where
  exitCode : Int
  output : String
  deriving DecidableEq, Repr

/-- The checker found nothing wrong. -/
def Outcome.success (outcome : Outcome) : Bool := outcome.exitCode = 0

/-- The result of a run. -/
inductive Verdict where
  /-- There are violations, and the checker was not called. -/
  | rejected (violations : List Violation)
  /-- The checker was called for so many notes. -/
  | checked (documents : Nat) (outcome : Outcome)
  deriving DecidableEq, Repr

/-- The exit code of a verdict: a rejection fails, and otherwise the checker decides. -/
def Verdict.exitCode : Verdict → Int
  | rejected _ => 1
  | checked _ outcome => outcome.exitCode

/-- What is found before the checker is called. -/
inductive Gate where
  | rejected (violations : List Violation)
  | passed (batch : Batch)
  deriving DecidableEq, Repr

/-- The stub module of a report, if it has one. -/
def Report.module? (report : Report) : Option Module := report.stub.map (⟨report.path, ·⟩)

/-- The report on the note at a path. -/
def reportAt (tree : Tree) (config : Config) (path : Path) : Except RunError Report :=
  match tree.read path with
  | .ok text => .ok (inspect config path text)
  | .error cause => .error (.access path cause)

/-- The reports on all notes that paths stand for. -/
def reports (walk : Walk) (tree : Tree) (config : Config) (paths : List Path) :
    Except RunError (List Report) := do
  let documents ← (discover walk tree config.documentName paths).mapError .notFound
  if documents.isEmpty then throw .noFilesFound
  documents.mapM (reportAt tree config)

/-- What the notes decide before the checker is called. -/
def gate (walk : Walk) (tree : Tree) (config : Config) (paths : List Path) :
    Except RunError Gate := do
  let reports ← reports walk tree config paths
  let batch := Batch.ofList (reports.filterMap Report.module?)
  if batch.isEmpty then throw .noBlocks
  let violations := reports.flatMap Report.violations
  if violations.isEmpty then return .passed batch else return .rejected violations

/-- A run with a checker. -/
def run {m : Type → Type} [Monad m] (check : Batch → m (Except RunError Outcome)) (walk : Walk)
    (tree : Tree) (config : Config) (paths : List Path) : m (Except RunError Verdict) :=
  match gate walk tree config paths with
  | .error e => return .error e
  | .ok (.rejected violations) => return .ok (.rejected violations)
  | .ok (.passed batch) => do
    match ← check batch with
    | .ok outcome => return .ok (.checked batch.length outcome)
    | .error e => return .error e

end NoteCheck.Verification
