/-
# File trees

A tree holds files and folders below a root, and the program works in one of the folders. A path
leads through folders, name by name, from there or, where it begins with a slash, from the root; a
dot stays in the folder, two dots go up, though not above the root, and a slash at the end asks for
a folder. A folder may let no path lead through it, and a file may not be readable.
-/
import NoteCheck.Files.Path
import NoteCheck.SystemError
import NoteCheck.Text.Utf8

namespace NoteCheck.Files

/-- What is at a place. -/
inductive Entry where
  /-- A file with its bytes, or with the reason why they cannot be read. -/
  | file (content : Except SystemError (List UInt8))
  /-- A folder, with the reason why no path leads through it if none does. -/
  | folder (barrier : Option SystemError)
  deriving Repr

/-- What is at a place is a file. -/
def Entry.isFile : Entry → Bool
  | file _ => true
  | folder _ => false

/-- Files and folders, each at a place given by the names that lead to it from the root. -/
structure Tree where
  /-- What is at a place; of two entries for one place the first counts. -/
  entries : List (List String × Entry)
  /-- The place of the folder in which the program works. -/
  here : List String
  isName_of_mem : ∀ entry ∈ entries, ∀ name ∈ entry.1, IsName name
  isName_of_here : ∀ name ∈ here, IsName name
  deriving Repr

namespace Tree

/-- The tree with what is at the given paths. The program works in the folder at a path from the
root on. -/
def ofPaths (here : Path) (entries : List (Path × Entry)) : Tree where
  entries := entries.map fun (path, entry) => (path.placeFrom (here.placeFrom []), entry)
  here := here.placeFrom []
  isName_of_mem := by
    rintro _ hentry
    obtain ⟨⟨path, entry⟩, -, rfl⟩ := List.mem_map.1 hentry
    exact path.isName_of_mem_placeFrom (here.isName_of_mem_placeFrom (List.forall_mem_nil _))
  isName_of_here := here.isName_of_mem_placeFrom (List.forall_mem_nil _)

/-- A folder that is there because the program works in it, or because something is in it. -/
def isFolder (tree : Tree) (place : List String) : Bool :=
  place.isPrefixOf tree.here ||
    tree.entries.any fun (other, _) => place.isPrefixOf other && other != place

/-- What is at a place. -/
def entry? (tree : Tree) (place : List String) : Option Entry :=
  match tree.entries.lookup place with
  | some entry => some entry
  | none => if tree.isFolder place then some (.folder none) else none

/-- Follows the texts between the slashes of a path from a place on. Whatever comes after a place
asks for a folder there, and any text for one that lets a path lead through it. -/
def follow (tree : Tree) (place : List String) :
    List (List Char) → Except SystemError (List String)
  | [] => .ok place
  | piece :: pieces =>
    match tree.entry? place with
    | none => .error .notFound
    | some (.file _) => .error .notAFolder
    | some (.folder barrier) =>
      if piece = [] then follow tree place pieces
      else
        match barrier with
        | some cause => .error cause
        | none => follow tree ((Path.component? piece).elim place (·.enter place)) pieces

/-- Where a path begins: at the root after a slash, and else in the folder in which the program
works. -/
def start (tree : Tree) (path : Path) : List String :=
  if path.toList.head? = some '/' then [] else tree.here

/-- The place to which a path leads, and what is there. -/
def find (tree : Tree) (path : Path) : Except SystemError (List String × Entry) := do
  if path.isEmpty then throw .notFound
  let place ← tree.follow (tree.start path) path.pieces
  match tree.entry? place with
  | some entry => return (place, entry)
  | none => throw .notFound

/-- Something is at a path. -/
def exists? (tree : Tree) (path : Path) : Bool :=
  match tree.find path with
  | .ok _ => true
  | .error _ => false

/-- The bytes of the file at a path. -/
def readBytes (tree : Tree) (path : Path) : Except SystemError (List UInt8) := do
  match ← tree.find path with
  | (_, .folder _) => throw .isAFolder
  | (_, .file content) => content

/-- The text of the file at a path. -/
def read (tree : Tree) (path : Path) : Except SystemError String := do
  match Text.Utf8.decode? (← tree.readBytes path) with
  | some text => return String.ofList text
  | none => throw .notText

end Tree

end NoteCheck.Files
