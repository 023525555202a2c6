/-
# Statements

The statements of a block. Of a statement that no composition may hold only its form and its
place are kept.
-/
import NoteCheck.Code.Expr

namespace NoteCheck.Code

/-- The form of a statement whose contents are skipped. Forms that have a constructor of their own
in `Stmt` are not among them, so that by the type alone no such statement is skipped. -/
inductive SkippedForm where
  | classDefinition | forLoop | asyncForLoop | whileLoop | withBlock | asyncWithBlock | tryBlock
  | raise | assertion | deletion | importNames | globalNames | nonlocalNames | pass | breakLoop
  | continueLoop
  deriving DecidableEq, Repr

/-- The form in words. -/
def SkippedForm.describe : SkippedForm → String
  | .classDefinition => "class definition"
  | .forLoop => "for loop"
  | .asyncForLoop => "async for loop"
  | .whileLoop => "while loop"
  | .withBlock => "with statement"
  | .asyncWithBlock => "async with statement"
  | .tryBlock => "try statement"
  | .raise => "raise statement"
  | .assertion => "assert statement"
  | .deletion => "del statement"
  | .importNames => "import"
  | .globalNames => "global declaration"
  | .nonlocalNames => "nonlocal declaration"
  | .pass => "pass"
  | .breakLoop => "break"
  | .continueLoop => "continue"

/-- A statement, with the part of the text that it takes. -/
inductive Stmt where
  | function (span : Span) (name : String) (parameters : List (Parameter Expr))
      (returns : Option Expr) (decorators : List Expr) (isAsync : Bool) (body : List Stmt)
  /-- The targets in the order in which they are written. -/
  | assign (span : Span) (targets : List Expr) (value : Expr)
  | augmentedAssign (span : Span) (target : Expr) (operator : BinaryOp) (value : Expr)
  | annotatedAssign (span : Span) (target annotation : Expr) (value : Option Expr)
  | ret (span : Span) (value : Option Expr)
  /-- A further condition stands as one statement in the else part. -/
  | branch (span : Span) (test : Expr) (body orelse : List Stmt)
  | expression (span : Span) (value : Expr)
  | skipped (span : Span) (form : SkippedForm)
  deriving Repr

namespace Stmt

/-- The part of the text that a statement takes. -/
def span : Stmt → Span
  | function s .. | assign s .. | augmentedAssign s .. | annotatedAssign s .. | ret s ..
  | branch s .. | expression s .. | skipped s .. => s

/-- The line on which a statement begins. -/
def line (s : Stmt) : Nat := s.span.line

/-- The form of a statement in words. -/
def describe : Stmt → String
  | function _ _ _ _ _ true _ => "async function definition"
  | function .. => "function definition"
  | assign .. => "assignment"
  | augmentedAssign .. => "augmented assignment"
  | annotatedAssign .. => "annotated assignment"
  | ret .. => "return"
  | branch .. => "if statement"
  | expression .. => "expression statement"
  | skipped _ form => form.describe

end Stmt

end NoteCheck.Code
