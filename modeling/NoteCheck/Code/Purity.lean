/-
# Purity

A block is pure when its top level holds only undecorated functions whose bodies are made of

* helper functions that hold only assignments and returns;
* assignments to one target, which is a name or a tuple or list of names;
* guards: conditions that guard exactly one return, where an else part is another guard or
  exactly one return;
* returns.

Every value that is assigned or returned is an expression of a pure grammar; the conditions of
guards may be any expressions. All violations are collected, in the order of the text.
-/
import NoteCheck.Code.Grammar.Stmt

namespace NoteCheck.Code

/-! ## Pure expressions -/

/-- Why an expression, apart from its parts, is outside the pure grammar. -/
inductive Impurity where
  /-- The form has no place in the grammar. -/
  | form (description : String)
  /-- Only the operators of arithmetic are allowed. -/
  | operator (op : BinaryOp)
  /-- A comprehension has an asynchronous clause. -/
  | asyncClause
  /-- A parameter of a lambda has a default or takes any number of arguments. -/
  | lambdaParameter
  deriving DecidableEq, Repr

/-- The cause in words. -/
def Impurity.message : Impurity → String
  | .form description => s!"{description} is not allowed"
  | .operator op => s!"operator `{op.symbol}` is not allowed"
  | .asyncClause => "asynchronous comprehension is not allowed"
  | .lambdaParameter => "lambda parameters must not have defaults or be variadic"

/-- A parameter without a default that takes one argument, or a bare mark. -/
def Parameter.isPlain {ε : Type} (p : Parameter ε) : Bool :=
  p.default.isNone && !p.isVariadic

namespace Expr

mutual

/-- The first part of an expression that is outside the pure grammar. An expression comes before
its parts; the targets of comprehensions are not looked at. -/
def firstImpure : Expr → Option Expr
  | name .. | constant .. => none
  | tuple _ elements | boolean _ _ elements => firstImpureIn elements
  | call _ callee arguments keywords =>
    firstImpure callee <|> firstImpureIn arguments <|> firstImpureInKeywords keywords
  | member _ value _ | unary _ _ value => firstImpure value
  | binary s left operator right =>
    if operator.isArithmetic then firstImpure left <|> firstImpure right
    else some (binary s left operator right)
  | comparison _ left links => firstImpure left <|> firstImpureInLinks links
  | subscript _ value index => firstImpure value <|> firstImpure index
  | slice _ lower upper step =>
    firstImpureInOption lower <|> firstImpureInOption upper <|> firstImpureInOption step
  | listComprehension s element clauses =>
    if clauses.any Clause.isAsync then some (listComprehension s element clauses)
    else firstImpure element <|> firstImpureInClauses clauses
  | generator s element clauses =>
    if clauses.any Clause.isAsync then some (generator s element clauses)
    else firstImpure element <|> firstImpureInClauses clauses
  | lambda s parameters body =>
    if parameters.all Parameter.isPlain then firstImpure body
    else some (lambda s parameters body)
  | e => some e

/-- The same in expressions side by side. -/
def firstImpureIn : List Expr → Option Expr
  | [] => none
  | e :: rest => firstImpure e <|> firstImpureIn rest

/-- The same in an expression that may be missing. -/
def firstImpureInOption : Option Expr → Option Expr
  | none => none
  | some e => firstImpure e

/-- The same in the operands of comparisons. -/
def firstImpureInLinks : List (CompareOp × Expr) → Option Expr
  | [] => none
  | (_, e) :: rest => firstImpure e <|> firstImpureInLinks rest

/-- The same in the values of keyword arguments. -/
def firstImpureInKeywords : List (Option String × Expr) → Option Expr
  | [] => none
  | (_, e) :: rest => firstImpure e <|> firstImpureInKeywords rest

/-- The same in the sources and filters of clauses. -/
def firstImpureInClauses : List (Clause Expr) → Option Expr
  | [] => none
  | ⟨_, source, filters, _⟩ :: rest =>
    firstImpure source <|> firstImpureIn filters <|> firstImpureInClauses rest

end

/-- Why an expression that was found impure is so. -/
def impurity : Expr → Impurity
  | binary _ _ operator _ => .operator operator
  | listComprehension .. | generator .. => .asyncClause
  | lambda .. => .lambdaParameter
  | e => .form e.describe

/-- What may be assigned to: a name, or names in a tuple or list that is not empty. -/
def isTarget : Expr → Bool
  | name .. => true
  | tuple _ elements | listDisplay _ elements => !elements.isEmpty && elements.all isName
  | _ => false

end Expr

/-! ## Violations -/

/-- What a block must not do. -/
inductive Offence where
  /-- The text is not a list of statements. -/
  | unreadable (fault : SyntaxFault)
  /-- A value is outside the pure grammar. -/
  | impure (impurity : Impurity)
  /-- A statement of this form stands at the top level. -/
  | topLevel (form : String)
  /-- A statement of this form stands in a function. -/
  | statement (form : String)
  /-- A statement of this form stands in a helper function. -/
  | helperStatement (helper form : String)
  /-- A function has decorators. -/
  | decorated (function : String)
  /-- An assignment has a target that is not made of names. -/
  | target
  /-- An assignment has several targets. -/
  | targetCount
  /-- A guard does not guard exactly one return. -/
  | guardBody
  /-- The else part of a guard is neither a guard nor exactly one return. -/
  | guardElse
  deriving DecidableEq, Repr

/-- The offence in words. -/
def Offence.message : Offence → String
  | .unreadable fault => s!"unable to parse lambda representation: {fault.message}"
  | .impure impurity => s!"impure expression: {impurity.message}"
  | .topLevel form => s!"disallowed top-level statement: {form}"
  | .statement form => s!"disallowed statement type: {form}"
  | .helperStatement helper form => s!"disallowed statement type in helper `{helper}`: {form}"
  | .decorated function => s!"function `{function}` must not be decorated"
  | .target => "assignment target must be a name or a tuple of names"
  | .targetCount => "assignment must have exactly one target"
  | .guardBody => "guard branch must be exactly one return statement"
  | .guardElse => "else branch must be a single guard or exactly one return statement"

/-- An offence and the line of the text on which it stands. -/
structure Violation where
  source : String
  line : Nat
  offence : Offence
  deriving DecidableEq, Repr

namespace Violation

/-- What is wrong, in words. -/
def message (v : Violation) : String := v.offence.message

/-- The violation as one line of text. -/
def render (v : Violation) : String := s!"{v.source}:{v.line}: {v.message}"

end Violation

/-! ## Pure blocks -/

namespace Purity

/-- An offence and its line, in a text that has no name yet. -/
abbrev Finding := Nat × Offence

/-- What is wrong with a value. -/
def value (e : Expr) : List Finding :=
  match e.firstImpure with
  | some impure => [(impure.line, .impure impure.impurity)]
  | none => []

/-- What is wrong with a value that may be missing. -/
def returned : Option Expr → List Finding
  | some e => value e
  | none => []

/-- What is wrong with an assignment. -/
def assignment (line : Nat) (targets : List Expr) (assigned : Expr) : List Finding :=
  (match targets with
  | [target] => if target.isTarget then [] else [(line, .target)]
  | _ => [(line, .targetCount)]) ++ value assigned

/-- What is wrong with statements that have to be exactly one return. -/
def oneReturn (line : Nat) (offence : Offence) : List Stmt → List Finding
  | [.ret _ e] => returned e
  | _ => [(line, offence)]

/-- What is wrong with the else part of a guard. -/
def guardElse : List Stmt → List Finding
  | [] => []
  | [.branch span _ body orelse] => oneReturn span.line .guardBody body ++ guardElse orelse
  | first :: others => oneReturn first.line .guardElse (first :: others)

/-- What is wrong with a guard. -/
def guard (line : Nat) (body orelse : List Stmt) : List Finding :=
  oneReturn line .guardBody body ++ guardElse orelse

/-- What is wrong with the decorators of a function. -/
def decorators (line : Nat) (name : String) (decorators : List Expr) : List Finding :=
  if decorators.isEmpty then [] else [(line, .decorated name)]

/-- What is wrong with a statement of a helper function. -/
def helperStatement (helper : String) : Stmt → List Finding
  | .assign span targets e => assignment span.line targets e
  | .ret _ e => returned e
  | s => [(s.line, .helperStatement helper s.describe)]

/-- What is wrong with a statement of a function. -/
def functionStatement : Stmt → List Finding
  | .function span name _ _ decos false body =>
    decorators span.line name decos ++ body.flatMap (helperStatement name)
  | .assign span targets e => assignment span.line targets e
  | .branch span _ body orelse => guard span.line body orelse
  | .ret _ e => returned e
  | s => [(s.line, .statement s.describe)]

/-- What is wrong with a statement at the top level. -/
def topStatement : Stmt → List Finding
  | .function span name _ _ decos false body =>
    decorators span.line name decos ++ body.flatMap functionStatement
  | s => [(s.line, .topLevel s.describe)]

/-- What is wrong with the text of a block. -/
def findings (code : String) : List Finding :=
  match parse code with
  | .ok body => body.flatMap topStatement
  | .error e => [(e.position.line, .unreadable e.fault)]

end Purity

/-- All violations of a block, in the order of the text. -/
def violations (code source : String) : List Violation :=
  (Purity.findings code).map fun (line, offence) => { source, line, offence }

end NoteCheck.Code
