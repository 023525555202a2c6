/-
# Stub modules

A stub module is a text for a type checker: it declares the operations of a note with their
types, gives a meaning to the type names that need one, and ends with the code of the note.
-/
import NoteCheck.Signature.Operation
import NoteCheck.Text.Uppercase

namespace NoteCheck.Stub

open Signature

/-- The names that the first line of a module imports. -/
def importedNames : List String := [
  "Any", "Callable", "Dict", "Iterable", "Iterator", "List", "Optional", "Sequence", "Set",
  "Tuple", "TypeVar"]

/-- The first line of a module. -/
def header : String := "from typing import " ++ ", ".intercalate importedNames

/-- The name of the function that folds updates over items. -/
def foldName : String := "fold_repaint"

/-- The declarations that are in every module: two type variables and the fold. -/
def helpers : String :=
  "T = TypeVar(\"T\")\n" ++
  "U = TypeVar(\"U\")\n" ++
  "\n\n" ++
  s!"def {foldName}(initial: T, items: Iterable[U], update: Callable[[T, U], T]) -> T:\n" ++
  "    raise NotImplementedError\n"

/-! ## Aliases -/

/-- Domain names with a shape of their own. -/
def domainAliases : List (String × String) := [
  ("Segment", "Tuple[Any, ...]"), ("Axis", "Tuple[int, int]"), ("AxisColumn", "Tuple[int, int]")]

/-- The words of the language of modules. -/
def keywords : List String := [
  "False", "None", "True", "and", "as", "assert", "async", "await", "break", "class",
  "continue", "def", "del", "elif", "else", "except", "finally", "for", "from", "global", "if",
  "import", "in", "is", "lambda", "nonlocal", "not", "or", "pass", "raise", "return", "try",
  "while", "with", "yield"]

/-- Names that no alias may bind: those that the first line imports, the type variables, and the
words of the language. -/
def reservedNames : List String := importedNames ++ ["T", "U"] ++ keywords

/-- The type that a name stands for, if it needs to be told: domain names and the spellings of
primitive types have one of their own, and any other name that begins with an upper-case
character may be anything. -/
def aliasFor (name : String) : Option String :=
  if reservedNames.contains name then none
  else
    match domainAliases.lookup name with
    | some target => some target
    | none =>
      match Primitive.ofSpelling? name with
      | some p => if p.name = name then none else some p.name
      | none => if name.toList.head?.any Text.isUppercase then some "Any" else none

/-- The aliases of a module, as pairs of name and type. The names of operations and of the fold
have a meaning already. -/
def aliases (operations : List Operation) (names : List String) : List (String × String) :=
  (names.filter fun name =>
    !(operations.map Operation.name).contains name && name != foldName).filterMap fun name =>
      (aliasFor name).map (name, ·)

/-! ## Modules -/

/-- The declaration of an operation. -/
def declaration (operation : Operation) : String :=
  let parameters :=
    ", ".intercalate (operation.parameters.mapIdx fun i type => s!"arg{i}: {type.render}")
  s!"def {operation.name}({parameters}) -> {operation.result.render}:\n" ++
    "    raise NotImplementedError\n"

/-- The lines of the aliases and the empty line after them, if there are aliases. -/
def aliasLines (bound : List (String × String)) : String :=
  if bound.isEmpty then ""
  else "\n".intercalate (bound.map fun (name, target) => s!"{name} = {target}") ++ "\n\n"

/-- A text that ends with a line break. -/
def ended (text : String) : String :=
  if text.toList.getLast? = some '\n' then text else text ++ "\n"

/-- The module for operations, names that occur in types or in the code, and the code. -/
def render (operations : List Operation) (names : List String) (code : String) : String :=
  header ++ "\n\n" ++ aliasLines (aliases operations names) ++ helpers ++
    String.join (operations.map fun operation => "\n\n" ++ declaration operation) ++
    "\n\n" ++ ended code

end NoteCheck.Stub
