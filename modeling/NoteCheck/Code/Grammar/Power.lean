/-
# What a token can do

Which tokens open an expression, which continue one and how strongly they bind, and which open a
statement. These tables are all that reading knows about the meaning of tokens.
-/
import NoteCheck.Code.Stmt
import NoteCheck.Code.Token

namespace NoteCheck.Code

/-! ## Binding power -/

/-- How strongly a token holds the operand before it, from the weakest on. -/
inductive BindingPower where
  | default | walrus | ternary | logicalOr | logicalAnd | logicalNot | relational
  | bitOr | bitXor | bitAnd | shift | additive | multiplicative | unary | exponent
  | call | member | primary
  deriving DecidableEq, Repr

namespace BindingPower

/-- Every binding power, from the weakest on. -/
def all : List BindingPower := [
  .default, .walrus, .ternary, .logicalOr, .logicalAnd, .logicalNot, .relational, .bitOr,
  .bitXor, .bitAnd, .shift, .additive, .multiplicative, .unary, .exponent, .call, .member, .primary]

/-- The name of a binding power. -/
def name : BindingPower → String
  | .default => "Default"
  | .walrus => "Walrus"
  | .ternary => "Ternary"
  | .logicalOr => "LogicalOr"
  | .logicalAnd => "LogicalAnd"
  | .logicalNot => "LogicalNot"
  | .relational => "Relational"
  | .bitOr => "BitOr"
  | .bitXor => "BitXor"
  | .bitAnd => "BitAnd"
  | .shift => "Shift"
  | .additive => "Additive"
  | .multiplicative => "Multiplicative"
  | .unary => "Unary"
  | .exponent => "Power"
  | .call => "Call"
  | .member => "Member"
  | .primary => "Primary"

/-- The place of a binding power in the order of strength. -/
def rank : BindingPower → Nat
  | .default => 0
  | .walrus => 1
  | .ternary => 2
  | .logicalOr => 3
  | .logicalAnd => 4
  | .logicalNot => 5
  | .relational => 6
  | .bitOr => 7
  | .bitXor => 8
  | .bitAnd => 9
  | .shift => 10
  | .additive => 11
  | .multiplicative => 12
  | .unary => 13
  | .exponent => 14
  | .call => 15
  | .member => 16
  | .primary => 17

instance : LT BindingPower := ⟨fun a b => a.rank < b.rank⟩

instance (a b : BindingPower) : Decidable (a < b) :=
  inferInstanceAs (Decidable (a.rank < b.rank))

end BindingPower

/-! ## Operators -/

/-- How strongly an operator between two operands binds. -/
def BinaryOp.power : BinaryOp → BindingPower
  | .bitOr => .bitOr
  | .bitXor => .bitXor
  | .bitAnd => .bitAnd
  | .shiftLeft | .shiftRight => .shift
  | .add | .sub => .additive
  | .mult | .div | .floorDiv | .mod | .matMult => .multiplicative
  | .pow => .exponent

/-- How strongly an operator binds the operand after it. -/
def UnaryOp.power : UnaryOp → BindingPower
  | .not => .logicalNot
  | .negate | .plus | .invert => .unary

/-- How strongly an operator joins conditions. -/
def BoolOp.power : BoolOp → BindingPower
  | .or => .logicalOr
  | .and => .logicalAnd

namespace TokenKind

/-- The operator that a mark between two operands stands for. -/
def binaryOp? : TokenKind → Option BinaryOp
  | .plus => some .add
  | .minus => some .sub
  | .star => some .mult
  | .slash => some .div
  | .doubleSlash => some .floorDiv
  | .percent => some .mod
  | .doubleStar => some .pow
  | .atSign => some .matMult
  | .pipe => some .bitOr
  | .caret => some .bitXor
  | .ampersand => some .bitAnd
  | .shiftLeft => some .shiftLeft
  | .shiftRight => some .shiftRight
  | _ => none

/-- The operator whose result a mark such as `+=` assigns. -/
def augmentedOp? : TokenKind → Option BinaryOp
  | .plusAssign => some .add
  | .minusAssign => some .sub
  | .starAssign => some .mult
  | .slashAssign => some .div
  | .doubleSlashAssign => some .floorDiv
  | .percentAssign => some .mod
  | .doubleStarAssign => some .pow
  | .atAssign => some .matMult
  | .pipeAssign => some .bitOr
  | .caretAssign => some .bitXor
  | .ampersandAssign => some .bitAnd
  | .shiftLeftAssign => some .shiftLeft
  | .shiftRightAssign => some .shiftRight
  | _ => none

end TokenKind

/-! ## Expressions -/

/-- How a token opens an expression. -/
inductive Opening where
  | name
  | number
  | string
  | constant (value : Constant)
  | unary (operator : UnaryOp)
  | starred
  | await
  | yield
  | lambda
  | parens
  | brackets
  | braces
  deriving DecidableEq, Repr

/-- How a token continues an expression that stands before it. -/
inductive Continuation where
  | named
  | conditional
  | boolean (operator : BoolOp)
  | comparison
  | binary (operator : BinaryOp)
  | call
  | subscript
  | member
  deriving DecidableEq, Repr

/-- How strongly a continuation holds the expression before it. -/
def Continuation.power : Continuation → BindingPower
  | .named => .walrus
  | .conditional => .ternary
  | .boolean operator => operator.power
  | .comparison => .relational
  | .binary operator => operator.power
  | .call | .subscript => .call
  | .member => .member

namespace TokenKind

/-- How a token opens an expression, if it can. -/
def opening? : TokenKind → Option Opening
  | .identifier => some .name
  | .number => some .number
  | .string | .formattedString => some .string
  | .kwTrue => some (.constant (.bool true))
  | .kwFalse => some (.constant (.bool false))
  | .kwNone => some (.constant .none)
  | .ellipsis => some (.constant .ellipsis)
  | .minus => some (.unary .negate)
  | .plus => some (.unary .plus)
  | .tilde => some (.unary .invert)
  | .kwNot => some (.unary .not)
  | .star => some .starred
  | .kwAwait => some .await
  | .kwYield => some .yield
  | .kwLambda => some .lambda
  | .openParen => some .parens
  | .openBracket => some .brackets
  | .openBrace => some .braces
  | _ => none

/-- How a token continues an expression, if it can. -/
def continuation? : TokenKind → Option Continuation
  | .colonAssign => some .named
  | .kwIf => some .conditional
  | .kwOr => some (.boolean .or)
  | .kwAnd => some (.boolean .and)
  | .less | .lessEqual | .greater | .greaterEqual | .equal | .notEqual | .kwIn | .kwNot | .kwIs =>
    some .comparison
  | .openParen => some .call
  | .openBracket => some .subscript
  | .dot => some .member
  | kind => kind.binaryOp?.map .binary

/-- A token with which an expression may begin. -/
def opensExpr (kind : TokenKind) : Bool := kind.opening?.isSome

/-- How strongly a token holds the expression before it. One that can only open an expression
holds it as strongly as can be, and is then found out of place. -/
def bindingPower (kind : TokenKind) : BindingPower :=
  match kind.continuation? with
  | some continuation => continuation.power
  | none => if kind.opensExpr then .primary else .default

end TokenKind

/-! ## Statements -/

/-- How a token opens a statement that owns a block. -/
inductive BlockForm where
  | function
  | decorated
  | async
  | branch
  | skipped (form : SkippedForm)
  deriving DecidableEq, Repr

/-- How a token opens a statement on a line of its own. -/
inductive LineForm where
  | ret
  | skipped (form : SkippedForm)
  deriving DecidableEq, Repr

namespace TokenKind

/-- How a token opens a statement that owns a block, if it does. -/
def blockForm? : TokenKind → Option BlockForm
  | .kwDef => some .function
  | .atSign => some .decorated
  | .kwAsync => some .async
  | .kwIf => some .branch
  | .kwFor => some (.skipped .forLoop)
  | .kwWhile => some (.skipped .whileLoop)
  | .kwTry => some (.skipped .tryBlock)
  | .kwWith => some (.skipped .withBlock)
  | .kwClass => some (.skipped .classDefinition)
  | _ => none

/-- How a reserved word opens a statement on a line of its own, if it does. -/
def lineForm? : TokenKind → Option LineForm
  | .kwReturn => some .ret
  | .kwPass => some (.skipped .pass)
  | .kwBreak => some (.skipped .breakLoop)
  | .kwContinue => some (.skipped .continueLoop)
  | .kwImport | .kwFrom => some (.skipped .importNames)
  | .kwGlobal => some (.skipped .globalNames)
  | .kwNonlocal => some (.skipped .nonlocalNames)
  | .kwRaise => some (.skipped .raise)
  | .kwDel => some (.skipped .deletion)
  | .kwAssert => some (.skipped .assertion)
  | _ => none

end TokenKind

end NoteCheck.Code
