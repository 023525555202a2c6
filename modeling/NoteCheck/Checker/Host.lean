/-
# Hosts

What stands around a checker while it works: the files beside the notes, a folder for the files of
modules, and the programs that can be started. All of it is the system's affair, so a host says
only what the system answers.
-/
import NoteCheck.Files.Path
import NoteCheck.SystemError

namespace NoteCheck.Checker

open Files

/-- Files with their bytes, each at a path. -/
abbrev Store := List (Path × List UInt8)

namespace Store

/-- The bytes of the file at a path. Two spellings with the same components are one path. -/
def read? (store : Store) (path : Path) : Option (List UInt8) :=
  (store.find? fun file => file.1.components = path.components).map Prod.snd

/-- The files after one of them is written. A file that was at its path before is lost. -/
def write (store : Store) (path : Path) (bytes : List UInt8) : Store :=
  (path, bytes) :: store.filter fun file => file.1.components ≠ path.components

/-- What is read after a file is written: the file at its own path, and elsewhere what was there. -/
theorem read?_write (store : Store) (path path' : Path) (bytes : List UInt8) :
    (store.write path bytes).read? path' =
      if path'.components = path.components then some bytes else store.read? path' := by
  unfold read? write
  rw [List.find?_cons, List.find?_filter]
  by_cases heq : path'.components = path.components
  · rw [if_pos heq, decide_eq_true heq.symm]
    rfl
  · rw [if_neg heq, decide_eq_false (Ne.symm heq)]
    dsimp only
    congr 2
    funext file
    by_cases hfile : file.1.components = path'.components
    · simp [hfile, heq]
    · simp [hfile]

end Store

/-- How a program has ended: its status, if no signal ended it, and what it wrote. -/
structure Ending where
  status : Option Int
  output : List UInt8
  errors : List UInt8
  deriving DecidableEq, Repr

/-- What the system answers while a checker works. -/
structure Host where
  /-- The folder in which scratch folders are made. -/
  temporary : Path
  /-- The scratch folder that is made for the checker, or why there is none. -/
  scratch : Except SystemError Path
  /-- The files that are there before. -/
  store : Store
  /-- Why the system does not let a file be written with some bytes, if it does not. -/
  refusal? : Store → Path → List UInt8 → Option SystemError
  /-- How a program ends that is started with arguments where some files are, or why it cannot be
  started. -/
  launch : Store → String → List String → Except SystemError Ending

end NoteCheck.Checker
