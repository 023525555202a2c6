/-
# The grammar of statements

What the reader of statements reads, as rules over the rules for expressions. Of a statement that
is passed over the rules say only that its tokens were passed over.
-/
import NoteCheck.Code.Grammar.Stmt
import NoteCheck.Proofs.Grammar.ExprRules

namespace NoteCheck.Code

open Parse (Guarded chained endsLine skipUntil skipClauses)

/-- A part of a statement, as it is read. -/
inductive StmtPart where
  /-- The values of an assignment from a value on, with the targets before it. -/
  | targets (before : List Expr) (value : Expr) (all : List Expr) (last : Expr)
  /-- The statement that an expression begins. -/
  | afterExpr (first : Expr) (st : Stmt)
  /-- A statement on a line of its own. -/
  | line (st : Stmt)
  | lineEnd (isPassedOver : Bool)
  /-- The statements of one line. -/
  | lineOf (body : List Stmt)
  | suite (body : List Stmt)
  | function (start : Span) (decorators : List Expr) (isAsync : Bool) (st : Stmt)
  | decorator (e : Expr)
  | guarded (g : Guarded)
  | stmt (st : Stmt)

/-- A block of a statement goes on. -/
def TokenStream.inBlock (s : TokenStream) : Bool := s.kind != .dedent && s.kind != .endOfFile

/-- A phrase of a statement stands between two streams. -/
inductive ReadsStmt : TokenStream → Phrase StmtPart → TokenStream → Prop
  -- statements that begin with an expression
  | targetsEnd {s before value} : s.kind ≠ .assign →
      ReadsStmt s (.one (.targets before value before value)) s
  | targetsNext {s t u before value next all last} : s.kind = .assign →
      ReadsExpr s.tail (.one (.exprList .default next)) t →
      ReadsStmt t (.one (.targets (before ++ [value]) next all last)) u →
      ReadsStmt s (.one (.targets before value all last)) u
  | assign {s t u first value all last} : s.kind = .assign →
      ReadsExpr s.tail (.one (.exprList .default value)) t →
      ReadsStmt t (.one (.targets [first] value all last)) u →
      ReadsStmt s (.one (.afterExpr first (.assign (first.span.through u.last) all last))) u
  | annotated {s t first annotation} : s.kind = .colon →
      ReadsExpr s.tail (.one (.expr .default annotation)) t → t.kind ≠ .assign →
      ReadsStmt s (.one (.afterExpr first
        (.annotatedAssign (first.span.through t.last) first annotation none))) t
  | annotatedAssign {s t u first annotation value} : s.kind = .colon →
      ReadsExpr s.tail (.one (.expr .default annotation)) t → t.kind = .assign →
      ReadsExpr t.tail (.one (.exprList .default value)) u →
      ReadsStmt s (.one (.afterExpr first
        (.annotatedAssign (first.span.through u.last) first annotation (some value)))) u
  | augmentedAssign {s t first op value} : s.kind.augmentedOp? = some op →
      ReadsExpr s.tail (.one (.exprList .default value)) t →
      ReadsStmt s (.one (.afterExpr first
        (.augmentedAssign (first.span.through t.last) first op value))) t
  | expression {s first} : s.kind ≠ .assign → s.kind ≠ .colon → s.kind.augmentedOp? = none →
      ReadsStmt s (.one (.afterExpr first (.expression (first.span.through s.last) first))) s
  -- statements on a line of their own
  | ret {s} : s.kind = .kwReturn → ¬s.tail.kind.opensExpr →
      ReadsStmt s (.one (.line (.ret (s.current.span.through s.tail.last) none))) s.tail
  | retValue {s t e} : s.kind = .kwReturn → s.tail.kind.opensExpr →
      ReadsExpr s.tail (.one (.exprList .default e)) t →
      ReadsStmt s (.one (.line (.ret (s.current.span.through t.last) (some e)))) t
  | skippedLine {s t form} : s.kind.lineForm? = some (.skipped form) →
      skipUntil endsLine s.tail = .ok ((), t) →
      ReadsStmt s (.one (.line (.skipped (s.current.span.through t.last) form))) t
  | exprLine {s t u first st} : s.kind.lineForm? = none →
      ReadsExpr s (.one (.exprList .default first)) t →
      ReadsStmt t (.one (.afterExpr first st)) u → ReadsStmt s (.one (.line st)) u
  | newlineEnd {s} : (s.skip .semicolon).kind = .newline →
      ReadsStmt s (.one (.lineEnd true)) (s.skip .semicolon).tail
  | blockEnd {s} : (s.skip .semicolon).kind = .endOfFile ∨ (s.skip .semicolon).kind = .dedent →
      ReadsStmt s (.one (.lineEnd true)) (s.skip .semicolon)
  | semicolonEnd {s} : s.kind = .semicolon → s.tail.kind ≠ .newline → s.tail.kind ≠ .endOfFile →
      s.tail.kind ≠ .dedent → ReadsStmt s (.one (.lineEnd false)) s.tail
  | lineLast {s t u st} : ReadsStmt s (.one (.line st)) t → ReadsStmt t (.one (.lineEnd true)) u →
      ReadsStmt s (.one (.lineOf [st])) u
  | lineNext {s t u v st others} : ReadsStmt s (.one (.line st)) t →
      ReadsStmt t (.one (.lineEnd false)) u → ReadsStmt u (.one (.lineOf others)) v →
      ReadsStmt s (.one (.lineOf (st :: others))) v
  -- statements with blocks
  | block {s t body} : s.kind = .colon → s.tail.kind = .newline → s.tail.tail.kind = .indent →
      ReadsStmt s.tail.tail.tail (.many TokenStream.inBlock (body.map .stmt)) t →
      t.kind = .dedent → ReadsStmt s (.one (.suite body)) t.tail
  | inline {s t body} : s.kind = .colon → s.tail.kind ≠ .newline →
      ReadsStmt s.tail (.one (.lineOf body)) t → ReadsStmt s (.one (.suite body)) t
  | function {s t u v start decorators isAsync parameters returns body} : s.kind = .kwDef →
      s.tail.kind = .identifier → s.tail.tail.kind = .openParen →
      ReadsExpr s.tail.tail.tail (.untilClosed .closeParen (parameters.map (.parameter true))) t →
      t.kind = .closeParen → ReadsExpr t.tail (.one (.after .arrow returns)) u →
      ReadsStmt u (.one (.suite body)) v →
      ReadsStmt s (.one (.function start decorators isAsync (.function (start.through v.last)
        s.tail.current.text parameters returns decorators isAsync body))) v
  | decorator {s t e} : s.kind = .atSign → ReadsExpr s.tail (.one (.expr .default e)) t →
      t.kind = .newline → ReadsStmt s (.one (.decorator e)) t.tail
  | guarded {s t u test body} : s.kind = .kwIf ∨ s.kind = .kwElif →
      ReadsExpr s.tail (.one (.expr .default test)) t → ReadsStmt t (.one (.suite body)) u →
      ReadsStmt s (.one (.guarded { start := s.current.span, test, body })) u
  -- statements
  | functionStmt {s t st} : s.kind = .kwDef →
      ReadsStmt s (.one (.function s.current.span [] false st)) t → ReadsStmt s (.one (.stmt st)) t
  | asyncFunction {s t st} : s.kind = .kwAsync →
      ReadsStmt s.tail (.one (.function s.current.span [] true st)) t →
      ReadsStmt s (.one (.stmt st)) t
  | decorated {s t u decorators st} : s.kind = .atSign →
      ReadsStmt s (.many (·.kind = .atSign) (decorators.map .decorator)) t →
      ReadsStmt t (.one (.function s.current.span decorators false st)) u →
      ReadsStmt s (.one (.stmt st)) u
  | decoratedAsync {s t u decorators st} : s.kind = .atSign →
      ReadsStmt s (.many (·.kind = .atSign) (decorators.map .decorator)) t → t.kind = .kwAsync →
      ReadsStmt t.tail (.one (.function s.current.span decorators true st)) u →
      ReadsStmt s (.one (.stmt st)) u
  | decoratedClass {s t u} {decorators : List Expr} : s.kind = .atSign →
      ReadsStmt s (.many (·.kind = .atSign) (decorators.map .decorator)) t → t.kind = .kwClass →
      skipClauses t = .ok ((), u) →
      ReadsStmt s (.one (.stmt (.skipped (s.current.span.through u.last) .classDefinition))) u
  | asyncFor {s t} : s.kind = .kwAsync → s.tail.kind = .kwFor → skipClauses s.tail = .ok ((), t) →
      ReadsStmt s (.one (.stmt (.skipped (s.current.span.through t.last) .asyncForLoop))) t
  | asyncWith {s t} : s.kind = .kwAsync → s.tail.kind = .kwWith →
      skipClauses s.tail = .ok ((), t) →
      ReadsStmt s (.one (.stmt (.skipped (s.current.span.through t.last) .asyncWithBlock))) t
  | branch {s t u first others} : s.kind = .kwIf → ReadsStmt s (.one (.guarded first)) t →
      ReadsStmt t (.many (·.kind = .kwElif) (others.map .guarded)) u → u.kind ≠ .kwElse →
      ReadsStmt s (.one (.stmt (chained u.last [] first others))) u
  | branchElse {s t u v first others orelse} : s.kind = .kwIf →
      ReadsStmt s (.one (.guarded first)) t →
      ReadsStmt t (.many (·.kind = .kwElif) (others.map .guarded)) u → u.kind = .kwElse →
      ReadsStmt u.tail (.one (.suite orelse)) v →
      ReadsStmt s (.one (.stmt (chained v.last orelse first others))) v
  | skipped {s t form} : s.kind.blockForm? = some (.skipped form) → skipClauses s = .ok ((), t) →
      ReadsStmt s (.one (.stmt (.skipped (s.current.span.through t.last) form))) t
  | lineStmt {s t u st isPassedOver} : s.kind.blockForm? = none → ReadsStmt s (.one (.line st)) t →
      ReadsStmt t (.one (.lineEnd isPassedOver)) u → ReadsStmt s (.one (.stmt st)) u
  -- loops
  | manyDone {s more} : more s = false → ReadsStmt s (.many more []) s
  | manyNext {s t u more part parts} : more s = true → ReadsStmt s (.one part) t →
      ReadsStmt t (.many more parts) u → ReadsStmt s (.many more (part :: parts)) u

end NoteCheck.Code
