/-
# Expressions

The expressions of a block. The forms go beyond what a composition may use, so that a form that
is out of place can be named.
-/
import NoteCheck.Code.Position

namespace NoteCheck.Code

/-- A literal that stands for itself; numbers and strings are kept as written. -/
inductive Constant where
  | number (text : String)
  | string (text : String)
  | bool (value : Bool)
  | none
  | ellipsis
  deriving DecidableEq, Repr

/-- An operator between two operands. -/
inductive BinaryOp where
  | add | sub | mult | div | floorDiv | mod | pow | matMult
  | bitOr | bitXor | bitAnd | shiftLeft | shiftRight
  deriving DecidableEq, Repr

namespace BinaryOp

/-- The operator as it is written. -/
def symbol : BinaryOp → String
  | .add => "+"
  | .sub => "-"
  | .mult => "*"
  | .div => "/"
  | .floorDiv => "//"
  | .mod => "%"
  | .pow => "**"
  | .matMult => "@"
  | .bitOr => "|"
  | .bitXor => "^"
  | .bitAnd => "&"
  | .shiftLeft => "<<"
  | .shiftRight => ">>"

/-- The four basic operations of arithmetic. -/
def isArithmetic : BinaryOp → Bool
  | .add | .sub | .mult | .div => true
  | _ => false

end BinaryOp

/-- An operator before its operand. -/
inductive UnaryOp where
  | not | negate | plus | invert
  deriving DecidableEq, Repr

/-- An operator that joins conditions. -/
inductive BoolOp where
  | and | or
  deriving DecidableEq, Repr

/-- An operator that compares. -/
inductive CompareOp where
  | equal | notEqual | less | lessEqual | greater | greaterEqual | isIn | notIn | is | isNot
  deriving DecidableEq, Repr

/-- What a parameter takes up. The bare marks `*` and `/` only divide the parameters. -/
inductive ParameterKind where
  | positional | varArgs | varKeyword | keywordOnlyMarker | positionalOnlyMarker
  deriving DecidableEq, Repr

/-- A parameter of a function; a bare mark has the empty name. -/
structure Parameter (ε : Type) where
  name : String
  kind : ParameterKind
  annotation : Option ε
  default : Option ε
  deriving Repr

/-- A parameter that takes any number of arguments. -/
def Parameter.isVariadic {ε : Type} (p : Parameter ε) : Bool :=
  match p.kind with
  | .varArgs | .varKeyword => true
  | _ => false

/-- One `for … in … if …` of a comprehension. -/
structure Clause (ε : Type) where
  target : ε
  source : ε
  filters : List ε
  isAsync : Bool
  deriving Repr

/-- An expression, with the part of the text that it takes. -/
inductive Expr where
  | name (span : Span) (id : String)
  | constant (span : Span) (value : Constant)
  | formattedString (span : Span)
  | tuple (span : Span) (elements : List Expr)
  | listDisplay (span : Span) (elements : List Expr)
  | setDisplay (span : Span) (elements : List Expr)
  /-- An entry without a key unpacks its value. -/
  | dictDisplay (span : Span) (entries : List (Option Expr × Expr))
  /-- A keyword argument without a name unpacks its value. -/
  | call (span : Span) (callee : Expr) (arguments : List Expr)
      (keywords : List (Option String × Expr))
  | member (span : Span) (value : Expr) (attr : String)
  | binary (span : Span) (left : Expr) (operator : BinaryOp) (right : Expr)
  | unary (span : Span) (operator : UnaryOp) (operand : Expr)
  | boolean (span : Span) (operator : BoolOp) (values : List Expr)
  /-- Comparisons chain: each operator compares the operand before it with the one after it. An
  operator and the operand after it are one link, so that there are as many of the ones as of the
  others by the type alone. -/
  | comparison (span : Span) (left : Expr) (links : List (CompareOp × Expr))
  | subscript (span : Span) (value index : Expr)
  | slice (span : Span) (lower upper step : Option Expr)
  | conditional (span : Span) (test body orelse : Expr)
  | lambda (span : Span) (parameters : List (Parameter Expr)) (body : Expr)
  | listComprehension (span : Span) (element : Expr) (clauses : List (Clause Expr))
  | generator (span : Span) (element : Expr) (clauses : List (Clause Expr))
  | setComprehension (span : Span) (element : Expr) (clauses : List (Clause Expr))
  | dictComprehension (span : Span) (key value : Expr) (clauses : List (Clause Expr))
  | starred (span : Span) (value : Expr)
  /-- An assignment inside an expression. -/
  | named (span : Span) (target value : Expr)
  | await (span : Span) (value : Expr)
  | yield (span : Span) (value : Option Expr)
  | yieldFrom (span : Span) (value : Expr)
  deriving Repr

namespace Expr

/-- The part of the text that an expression takes. -/
def span : Expr → Span
  | name s .. | constant s .. | formattedString s .. | tuple s .. | listDisplay s ..
  | setDisplay s .. | dictDisplay s .. | call s .. | member s .. | binary s .. | unary s ..
  | boolean s .. | comparison s .. | subscript s .. | slice s .. | conditional s ..
  | lambda s .. | listComprehension s .. | generator s .. | setComprehension s ..
  | dictComprehension s .. | starred s .. | named s .. | await s .. | yield s ..
  | yieldFrom s .. => s

/-- The line on which an expression begins. -/
def line (e : Expr) : Nat := e.span.line

/-- The form of an expression in words. -/
def describe : Expr → String
  | name .. => "name"
  | constant .. => "constant"
  | formattedString .. => "formatted string"
  | tuple .. => "tuple"
  | listDisplay .. => "list display"
  | setDisplay .. => "set display"
  | dictDisplay .. => "dict display"
  | call .. => "call"
  | member .. => "attribute access"
  | binary .. => "binary operation"
  | unary .. => "unary operation"
  | boolean .. => "boolean operation"
  | comparison .. => "comparison"
  | subscript .. => "subscript"
  | slice .. => "slice"
  | conditional .. => "conditional expression"
  | lambda .. => "lambda"
  | listComprehension .. => "list comprehension"
  | generator .. => "generator expression"
  | setComprehension .. => "set comprehension"
  | dictComprehension .. => "dict comprehension"
  | starred .. => "starred expression"
  | named .. => "assignment expression"
  | await .. => "await"
  | yield .. => "yield"
  | yieldFrom .. => "yield from"

/-- A plain name. -/
def isName : Expr → Bool
  | name .. => true
  | _ => false

end Expr

end NoteCheck.Code
