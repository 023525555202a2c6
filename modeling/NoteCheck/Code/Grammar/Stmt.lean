/-
# Reading statements

Statements that a composition may hold are read in full. Others are passed over: a statement on a
line of its own up to the end of the line, a statement with a block together with the block and
with the clauses that go on with it. `Parse.stmt` reads one statement, with a bound on the depth
of blocks that counts tokens, and `parse` reads all statements of a block.
-/
import NoteCheck.Code.Grammar.Expr
import NoteCheck.Code.Layout

namespace NoteCheck.Code

namespace Parse

/-! ## Statements on a line of their own -/

/-- The values after the targets of an assignment: each value but the last is a target as well. -/
def assigned (first : Expr) : Parse (List Expr × Expr) := do
  let _ ← advance
  let value ← exprList .default
  loop (fun (targets, value) => do
    if ← skip? .assign then return .inl (targets ++ [value], ← exprList .default)
    else return .inr (targets, value)) ([first], value)

/-- What follows an expression at the beginning of a statement. -/
def afterExpr (first : Expr) : Parse Stmt := do
  let start := first.span
  match ← kind with
  | .assign =>
    let (targets, value) ← assigned first
    return .assign (← spanFrom start) targets value
  | .colon =>
    let _ ← advance
    let annotation ← expr .default
    let value ← if ← skip? .assign then some <$> exprList .default else pure none
    return .annotatedAssign (← spanFrom start) first annotation value
  | mark =>
    match mark.augmentedOp? with
    | some operator =>
      let _ ← advance
      let value ← exprList .default
      return .augmentedAssign (← spanFrom start) first operator value
    | none => return .expression (← spanFrom start) first

/-- The end of a line or of a statement on it. -/
def endsLine (kind : TokenKind) : Bool :=
  kind = .newline || kind = .semicolon || kind = .dedent || kind = .endOfFile

/-- Passes over tokens up to one that ends what they belong to. -/
def skipUntil (stop : TokenKind → Bool) : Parse Unit :=
  loop (fun _ => do
    if stop (← kind) then return .inr ()
    else
      let _ ← advance
      return .inl ()) ()

/-- A statement on a line of its own, without what ends it. -/
def lineStmt : Parse Stmt := do
  match (← kind).lineForm? with
  | some .ret =>
    let start := (← advance).span
    let value ← if (← kind).opensExpr then some <$> exprList .default else pure none
    return .ret (← spanFrom start) value
  | some (.skipped form) =>
    let start := (← advance).span
    skipUntil endsLine
    return .skipped (← spanFrom start) form
  | none => afterExpr (← exprList .default)

/-- The end of a statement on a line of its own. The answer is whether the line is over; if not,
another statement follows after a semicolon. -/
def endLine : Parse Bool := do
  let semicolon ← skip? .semicolon
  match ← kind with
  | .newline =>
    let _ ← advance
    return true
  | .endOfFile | .dedent => return true
  | _ => if semicolon then return false else unexpected

/-- The statements of one line. -/
def line : Parse (List Stmt) :=
  loop (fun found => do
    let found := found ++ [← lineStmt]
    if ← endLine then return .inr found else return .inl found) []

/-! ## Passing over statements with blocks -/

/-- Passes over the head of a clause and its colon. Colons inside brackets belong to the head. -/
def skipHead : Parse Unit :=
  loop (fun depth => do
    match ← kind with
    | .endOfFile | .newline => unexpected
    | kind =>
      let _ ← advance
      if kind = .colon ∧ depth = 0 then return .inr ()
      else return .inl (kind.depthAfter depth)) 0

/-- Passes over an indented block after its opening. -/
def skipBlock : Parse Unit :=
  loop (fun depth => do
    let kind ← kind
    if kind = .endOfFile then unexpected
    else
      let _ ← advance
      match kind, depth with
      | .indent, depth => return .inl (depth + 1)
      | .dedent, 0 => return .inr ()
      | .dedent, depth + 1 => return .inl depth
      | _, depth => return .inl depth) 0

/-- Passes over a clause: its head, and the block or the rest of the line. -/
def skipClause : Parse Unit := do
  skipHead
  if ← skip? .newline then
    let _ ← expect .indent
    skipBlock
  else
    skipUntil fun kind => kind = .newline || kind = .endOfFile
    let _ ← skip? .newline

/-- A token with which a statement with a block goes on. -/
def continuesBlock (kind : TokenKind) : Bool :=
  kind = .kwElse || kind = .kwElif || kind = .kwExcept || kind = .kwFinally

/-- Passes over a statement with a block, with all its clauses. -/
def skipClauses : Parse Unit := do
  skipClause
  loop (fun _ => do
    if continuesBlock (← kind) then
      skipClause
      return .inl ()
    else return .inr ()) ()

/-- A statement with a block whose contents are passed over. -/
def skipped (start : Span) (form : SkippedForm) : Parse Stmt := do
  skipClauses
  return .skipped (← spanFrom start) form

/-! ## Statements with blocks -/

section Rules

variable (stmt : Parse Stmt)

/-- The part after the head of a statement: an indented block, or statements on the same line. -/
def suiteOf : Parse (List Stmt) := do
  let _ ← expect .colon
  if ← skip? .newline then
    let _ ← expect .indent
    let body ← manyWhile (fun s => s.kind != .dedent && s.kind != .endOfFile) stmt
    let _ ← expect .dedent
    return body
  else line

/-- A function from its first word on. -/
def function (start : Span) (decorators : List Expr) (isAsync : Bool) : Parse Stmt := do
  let _ ← expect .kwDef
  let name ← expect .identifier
  let _ ← expect .openParen
  let parameters ← parameters .closeParen true
  let _ ← expect .closeParen
  let returns ← if ← skip? .arrow then some <$> expr .default else pure none
  let body ← suiteOf stmt
  return .function (← spanFrom start) name.text parameters returns decorators isAsync body

/-- A decorator and the end of its line. -/
def decorator : Parse Expr := do
  let _ ← expect .atSign
  let decorator ← expr .default
  let _ ← expect .newline
  return decorator

/-- A function or a class with decorators. -/
def decorated (start : Span) : Parse Stmt := do
  let decorators ← manyWhile (·.kind = .atSign) decorator
  match ← kind with
  | .kwDef => function stmt start decorators false
  | .kwAsync =>
    let _ ← advance
    function stmt start decorators true
  | .kwClass => skipped start .classDefinition
  | _ => unexpectedFor "expected a function or class after decorators"

/-- A statement after `async`. -/
def async (start : Span) : Parse Stmt := do
  let _ ← advance
  match ← kind with
  | .kwDef => function stmt start [] true
  | .kwFor => skipped start .asyncForLoop
  | .kwWith => skipped start .asyncWithBlock
  | _ => unexpected

/-- A condition and what it guards. -/
structure Guarded where
  start : Span
  test : Expr
  body : List Stmt

/-- A condition after its first word, and what it guards. -/
def guarded : Parse Guarded := do
  let start := (← advance).span
  let test ← expr .default
  let body ← suiteOf stmt
  return { start, test, body }

/-- A chain of conditions as one statement: each further condition is the else part of the one
before it, and all of them end where the chain ends. -/
def chained (stop : Span) (orelse : List Stmt) (first : Guarded) : List Guarded → Stmt
  | [] => .branch (first.start.through stop) first.test first.body orelse
  | next :: others =>
    .branch (first.start.through stop) first.test first.body [chained stop orelse next others]

/-- A chain of conditions, which may end with an else part. -/
def branch : Parse Stmt := do
  let first ← guarded stmt
  let others ← manyWhile (·.kind = .kwElif) (guarded stmt)
  let orelse ← if ← skip? .kwElse then suiteOf stmt else pure []
  return chained (← get).last orelse first others

/-- A statement. -/
def stmtOf : Parse Stmt := do
  let start := (← get).current.span
  match (← kind).blockForm? with
  | some .function => function stmt start [] false
  | some .decorated => decorated stmt start
  | some .async => async stmt start
  | some .branch => branch stmt
  | some (.skipped form) => skipped start form
  | none =>
    let found ← lineStmt
    let _ ← endLine
    return found

end Rules

/-- Statements whose blocks are nested at most to the given depth. -/
def stmtWithin : Nat → Parse Stmt
  | 0 => throw .exhausted
  | depth + 1 => stmtOf (stmtWithin depth)

/-- A statement. -/
def stmt : Parse Stmt := do stmtWithin (← get).fuel

/-- The part after the head of a statement. -/
def suite : Parse (List Stmt) := suiteOf stmt

/-- All statements up to the end of the text. -/
def block : Parse (List Stmt) := manyWhile TokenStream.hasTokens stmt

end Parse

/-- The statements of a list of tokens. The bounds on loops and depth count the tokens, so they
are not reached. -/
def parseTokens : List Token → Except SyntaxError (List Stmt)
  | [] => .ok []
  | first :: others =>
    match Parse.block.run (.ofTokens first others) with
    | .ok (body, _) => .ok body
    | .error (.fault e) => .error e
    | .error .exhausted => .error ⟨.unexpected first.shown, first.span.start⟩

/-- The statements of a block. -/
def parse (code : String) : Except SyntaxError (List Stmt) := do
  parseTokens (← tokenize code)

end NoteCheck.Code
