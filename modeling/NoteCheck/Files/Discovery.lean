/-
# Discovery

The notes that paths stand for: a file stands for itself, and a folder for the files of a given
name that a walk through it comes upon.
-/
import NoteCheck.Files.Tree
import NoteCheck.Sorted

namespace NoteCheck.Files

/-- What a walk through a folder comes upon. -/
structure Visit where
  path : Path
  isFile : Bool
  deriving DecidableEq, Repr

/-- The name at the end of the path. A path that ends in no name is named as it is written. -/
def Visit.name (visit : Visit) : String := visit.path.fileName?.getD visit.path

/-- A way to walk through folders: for the folder at a path, all that the walk comes upon, one
after the other, with an error in the place of what cannot be read. -/
abbrev Walk := Path → List (Except SystemError Visit)

/-- The files of a name that a walk through the folder at a path comes upon, in the order of their
paths. What cannot be read is passed over. -/
def notesBelow (walk : Walk) (name : String) (path : Path) : List Path :=
  let visits := (walk path).filterMap Except.toOption
  let notes := visits.filter fun visit => visit.isFile && visit.name = name
  Sorted.sortBy Path.components (notes.map Visit.path)

/-- The notes that a path stands for, if it leads somewhere. -/
def notesAt? (walk : Walk) (tree : Tree) (name : String) (path : Path) : Option (List Path) :=
  match tree.find path with
  | .ok (_, .file _) => some [path]
  | .ok (_, .folder _) => some (notesBelow walk name path)
  | .error _ => none

/-- The notes that paths stand for, from the first path on, or the first path that leads
nowhere. -/
def discover (walk : Walk) (tree : Tree) (name : String) (paths : List Path) :
    Except Path (List Path) := do
  let found ← paths.mapM fun path =>
    match notesAt? walk tree name path with
    | some notes => .ok notes
    | none => .error path
  return found.flatten

/-! ## Walking through a tree -/

namespace Tree

/-- The names that lead from a place to everything below it. -/
def below (tree : Tree) (place : List String) : List (List String) :=
  let listed := tree.here :: tree.entries.map Prod.fst
  let places := listed.flatMap fun other => (List.range (other.length + 1)).map other.take
  Sorted.ofList ((places.filterMap place.isPrefixOf?).filter fun names =>
    !names.isEmpty && (tree.entry? (place ++ names)).isSome)

/-- What is at a place below the folder at a path. -/
def visit (tree : Tree) (path : Path) (place names : List String) : Visit :=
  ⟨path.join names, (tree.entry? (place ++ names)).any Entry.isFile⟩

/-- The walk that comes upon everything below a folder. -/
def walk (tree : Tree) : Walk := fun path =>
  match tree.find path with
  | .ok (place, _) => (tree.below place).map fun names => .ok (tree.visit path place names)
  | .error cause => [.error cause]

end Tree

end NoteCheck.Files
