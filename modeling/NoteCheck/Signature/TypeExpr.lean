/-
# Type expressions

The types of operations, in the canonical form that type checkers read.
-/
import NoteCheck.Text.Identifier

namespace NoteCheck.Signature

/-- A type that needs no declaration. -/
inductive Primitive where
  | bool | int | float | str
  deriving DecidableEq, Repr

namespace Primitive

/-- The canonical name. -/
def name : Primitive → String
  | .bool => "bool"
  | .int => "int"
  | .float => "float"
  | .str => "str"

/-- The spellings under which the primitive types are known. -/
def spellings : List (String × Primitive) := [
  ("Bool", .bool), ("Boolean", .bool), ("bool", .bool),
  ("Int", .int), ("Integer", .int), ("int", .int),
  ("Float", .float), ("float", .float),
  ("Str", .str), ("String", .str), ("str", .str)]

/-- The primitive type with a spelling, if there is one. -/
def ofSpelling? (text : String) : Option Primitive := spellings.lookup text

end Primitive

/-- A container with one kind of element. -/
inductive Container where
  | list | set | optional | sequence | iterable | iterator
  deriving DecidableEq, Repr

namespace Container

/-- Every container. -/
def all : List Container := [.list, .set, .optional, .sequence, .iterable, .iterator]

/-- The word before the element type. -/
def keyword : Container → String
  | .list => "List"
  | .set => "Set"
  | .optional => "Optional"
  | .sequence => "Sequence"
  | .iterable => "Iterable"
  | .iterator => "Iterator"

end Container

/-- A type. -/
inductive TypeExpr where
  | any
  | primitive (primitive : Primitive)
  /-- A type that is known by its name alone. -/
  | named (name : String)
  | generic (container : Container) (element : TypeExpr)
  | dict (key value : TypeExpr)
  | tuple (elements : List TypeExpr)
  deriving Repr, BEq

namespace TypeExpr

mutual

/-- The canonical form of a type. -/
def render : TypeExpr → String
  | any => "Any"
  | primitive p => p.name
  | named name => name
  | generic container element => s!"{container.keyword}[{element.render}]"
  | dict key value => s!"Dict[{key.render}, {value.render}]"
  | tuple elements => "Tuple[" ++ ", ".intercalate (renderAll elements) ++ "]"

/-- The canonical forms of types side by side. -/
def renderAll : List TypeExpr → List String
  | [] => []
  | type :: types => type.render :: renderAll types

end

mutual

/-- The identifiers in the names of a type, from left to right. The words of containers and
primitive types are not among them. -/
def names : TypeExpr → List String
  | any | primitive _ => []
  | named name => (Text.identifiers name.toList).map String.ofList
  | generic _ element => element.names
  | dict key value => key.names ++ value.names
  | tuple elements => namesOfAll elements

/-- The identifiers in types side by side. -/
def namesOfAll : List TypeExpr → List String
  | [] => []
  | type :: types => type.names ++ namesOfAll types

end

end TypeExpr

end NoteCheck.Signature
