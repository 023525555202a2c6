/-
# Scratch files

A checker reads modules from files with names that a module may have. The name is made from the
path of the note: the folder, an underscore and the file without its ending. A number tells apart
names that would be equal.
-/
import NoteCheck.Text.Identifier
import NoteCheck.Verification.Batch

namespace NoteCheck.Checker

open Files Verification

/-- A text with every character that a module name cannot hold made an underscore. -/
def sanitize (text : List Char) : List Char :=
  text.map fun c => if Text.isIdentifierChar c then c else '_'

/-- The name of the module of a note, before it is told apart from others. -/
def moduleName (path : Path) : String :=
  let folder := path.folderName?.getD ""
  let stem := path.fileStem?.getD ""
  let name := sanitize (folder.toList ++ ['_'] ++ stem.toList)
  String.ofList (if name.head?.any Char.isDigit then '_' :: name else name)

/-- A name that is not taken: the name itself, or the name with the least number from two on. Of
as many numbers as there are taken names and one more, one is free. The numbers are of any size: a
counter of 32 bits differs only where 2 ^ 31 - 2 names and more are taken. -/
def freeName (taken : List String) (name : String) : String :=
  if taken.contains name then
    let numbered := (List.range (taken.length + 1)).map fun i => s!"{name}_{i + 2}"
    (numbered.find? (!taken.contains ·)).getD name
  else name

/-- The names of modules for notes, each told apart from the ones before it and from names that
are taken. -/
def moduleNames (taken : List String) : List Path → List String
  | [] => []
  | path :: paths =>
    let name := freeName taken (moduleName path)
    name :: moduleNames (name :: taken) paths

/-- The files for the modules of notes. -/
def scratchNames (paths : List Path) : List String :=
  (moduleNames [] paths).map (· ++ ".py")

/-- The files for the modules of a batch, each with its text. -/
def scratchFiles (batch : Batch) : List (String × String) :=
  (scratchNames (batch.map Module.path)).zip (batch.map Module.text)

end NoteCheck.Checker
