/-
# Starting programs

The programs that can be started beside a file tree: a shell, which runs scripts, and the tools
that join files, succeed or fail. There are no other programs.
-/
import NoteCheck.Checker.Host
import NoteCheck.Shell.Execution

namespace NoteCheck.Shell

open Files Checker

/-- Why there is no program with a name. A name with a slash is a path. -/
def launchError (tree : Tree) (name : String) : SystemError :=
  if name.contains '/' then
    match tree.find name with
    | .ok _ => .notPermitted
    | .error .notAFolder => .notAFolder
    | .error _ => .notFound
  else .notFound

/-- Starts a program where some files lie beside a tree. -/
def launch (tree : Tree) (store : Store) (program : String) (arguments : List String) :
    Except SystemError Ending :=
  if (program :: arguments).any (·.contains '\x00') then .error .nullCharacter
  else
    match program? program arguments with
    | some act => .ok (({ tree, files := store } : State).run act)
    | none => .error (launchError tree program)

/-- The host on which these programs can be started beside a tree, and every file be written. -/
def host (tree : Tree) : Host where
  temporary := "/tmp"
  scratch := .ok "/tmp/lambda-verify"
  store := []
  refusal? _ _ _ := none
  launch := launch tree

end NoteCheck.Shell
