/-
# Reading expressions

Operators are read by binding power: an expression read with some power goes on as long as the
next token binds more strongly. The rules below are written over a reader for the expressions
inside them; `Parse.expr` ties the knot, with a bound on the depth that counts tokens.
-/
import NoteCheck.Code.Grammar.Power
import NoteCheck.Code.Grammar.Stream

namespace NoteCheck.Code

namespace Parse

section Rules

variable (expr : BindingPower → Parse Expr)

/-- An expression, or several with commas between them, which make a tuple. -/
def exprListOf (power : BindingPower) : Parse Expr := do
  let first ← expr power
  if (← kind) = .comma then
    let others ← afterCommas (!·.opensExpr) (expr power)
    return .tuple (← spanFrom first.span) (first :: others)
  else return first

/-! ## Parameters and comprehensions -/

/-- The name of a parameter and what it takes up. -/
def parameterName : Parse (String × ParameterKind) := do
  match ← kind with
  | .star =>
    let _ ← advance
    if (← kind) = .identifier then return ((← advance).text, .varArgs)
    else return ("", .keywordOnlyMarker)
  | .doubleStar =>
    let _ ← advance
    return ((← expect .identifier).text, .varKeyword)
  | .slash =>
    let _ ← advance
    return ("", .positionalOnlyMarker)
  | .identifier => return ((← advance).text, .positional)
  | _ => unexpectedFor "expected parameter name"

/-- An expression after a mark, if the mark stands there. -/
def exprAfter? (mark : TokenKind) : Parse (Option Expr) := do
  if ← skip? mark then return some (← expr .default) else return none

/-- A parameter. A colon after its name is read only where annotations are allowed. -/
def parameter (annotations : Bool) : Parse (Parameter Expr) := do
  let (name, kind) ← parameterName
  let annotation ← if annotations then exprAfter? expr .colon else pure none
  let default ← exprAfter? expr .assign
  return { name, kind, annotation, default }

/-- The parameters before the given closing token, which is left. -/
def parametersOf (closing : TokenKind) (annotations : Bool) : Parse (List (Parameter Expr)) :=
  untilClosed closing (parameter expr annotations)

/-- The clauses of a comprehension begin here. -/
def atClause (stream : TokenStream) : Bool :=
  match stream.kind with
  | .kwFor => true
  | .kwAsync => stream.peek 1 = .kwFor
  | _ => false

/-- One clause of a comprehension. Its target ends before `in`, its source and its filters
before `if`. -/
def clause : Parse (Clause Expr) := do
  let isAsync ← skip? .kwAsync
  let _ ← expect .kwFor
  let target ← exprListOf expr .relational
  let _ ← expect .kwIn
  let source ← expr .ternary
  let filters ← manyWhile (·.kind = .kwIf) do
    let _ ← advance
    expr .ternary
  return { target, source, filters, isAsync }

/-- The clauses of a comprehension, as many as there are. -/
def clausesOf : Parse (List (Clause Expr)) := manyWhile atClause (clause expr)

/-! ## Brackets -/

/-- The elements after the first one, and the closing bracket. -/
def elementsAfter (first : Expr) (closing : TokenKind) : Parse (List Expr) := do
  let others ← afterCommas (· = closing) (expr .default)
  let _ ← expect closing
  return first :: others

/-- What stands after an opening parenthesis: nothing, a generator, a tuple, or an expression
that is only grouped. -/
def afterParen (start : Span) : Parse Expr := do
  if ← skip? .closeParen then return .tuple (← spanFrom start) []
  else
    let first ← expr .default
    if atClause (← get) then
      let clauses ← clausesOf expr
      let _ ← expect .closeParen
      return .generator (← spanFrom start) first clauses
    else if (← kind) = .comma then
      let elements ← elementsAfter expr first .closeParen
      return .tuple (← spanFrom start) elements
    else
      let _ ← expect .closeParen
      return first

/-- What stands after an opening bracket: a list or a comprehension. -/
def afterBracket (start : Span) : Parse Expr := do
  if ← skip? .closeBracket then return .listDisplay (← spanFrom start) []
  else
    let first ← expr .default
    if atClause (← get) then
      let clauses ← clausesOf expr
      let _ ← expect .closeBracket
      return .listComprehension (← spanFrom start) first clauses
    else
      let elements ← elementsAfter expr first .closeBracket
      return .listDisplay (← spanFrom start) elements

/-- A key and its value, or a value that is unpacked. -/
def dictEntry : Parse (Option Expr × Expr) := do
  if ← skip? .doubleStar then return (none, ← expr .relational)
  else
    let key ← expr .default
    let _ ← expect .colon
    return (some key, ← expr .default)

/-- Further entries of a dict, and the closing brace. -/
def dictAfter (start : Span) (entries : List (Option Expr × Expr)) : Parse Expr := do
  let others ← untilClosed .closeBrace (dictEntry expr)
  let _ ← expect .closeBrace
  return .dictDisplay (← spanFrom start) (entries ++ others)

/-- What stands after an opening brace: a dict, a set, or a comprehension of either. -/
def afterBrace (start : Span) : Parse Expr := do
  if ← skip? .closeBrace then return .dictDisplay (← spanFrom start) []
  else if (← kind) = .doubleStar then dictAfter expr start []
  else
    let first ← expr .default
    if ← skip? .colon then
      let value ← expr .default
      if atClause (← get) then
        let clauses ← clausesOf expr
        let _ ← expect .closeBrace
        return .dictComprehension (← spanFrom start) first value clauses
      else
        let _ ← skip? .comma
        dictAfter expr start [(some first, value)]
    else if atClause (← get) then
      let clauses ← clausesOf expr
      let _ ← expect .closeBrace
      return .setComprehension (← spanFrom start) first clauses
    else
      let elements ← elementsAfter expr first .closeBrace
      return .setDisplay (← spanFrom start) elements

/-! ## Openings -/

/-- String literals side by side are one, and formatted if one of them is. -/
def strings (first : Token) : Parse Expr := do
  let others ← manyWhile (fun s => s.kind = .string || s.kind = .formattedString) advance
  let literals := first :: others
  let span ← spanFrom first.span
  if literals.any (·.kind = .formattedString) then return .formattedString span
  else return .constant span (.string (" ".intercalate (literals.map Token.text)))

/-- What stands after `yield`. -/
def afterYield (start : Span) : Parse Expr := do
  if ← skip? .kwFrom then
    let value ← expr .default
    return .yieldFrom (← spanFrom start) value
  else if (← kind).opensExpr then
    let value ← exprListOf expr .default
    return .yield (← spanFrom start) (some value)
  else return .yield (← spanFrom start) none

/-- The expression that a token opens. -/
def opened (opening : Opening) : Parse Expr := do
  let token ← advance
  let start := token.span
  match opening with
  | .name => return .name (← spanFrom start) token.text
  | .number => return .constant (← spanFrom start) (.number token.text)
  | .constant value => return .constant (← spanFrom start) value
  | .string => strings token
  | .unary operator =>
    let operand ← expr operator.power
    return .unary (← spanFrom start) operator operand
  | .starred =>
    let value ← expr .relational
    return .starred (← spanFrom start) value
  | .await =>
    let value ← expr .exponent
    return .await (← spanFrom start) value
  | .yield => afterYield expr start
  | .lambda =>
    let parameters ← parametersOf expr .colon false
    let _ ← expect .colon
    let body ← expr .default
    return .lambda (← spanFrom start) parameters body
  | .parens => afterParen expr start
  | .brackets => afterBracket expr start
  | .braces => afterBrace expr start

/-! ## Continuations -/

/-- An operator that compares, which may be two words. -/
def compareOp : Parse CompareOp := do
  let operator ← match ← kind with
    | .less => pure .less
    | .lessEqual => pure .lessEqual
    | .greater => pure .greater
    | .greaterEqual => pure .greaterEqual
    | .equal => pure .equal
    | .notEqual => pure .notEqual
    | .kwIn => pure .isIn
    | .kwNot =>
      let _ ← advance
      if (← kind) = .kwIn then pure .notIn else unexpectedFor "expected `in` after `not`"
    | .kwIs =>
      if (← get).peek 1 = .kwNot then
        let _ ← advance
        pure .isNot
      else pure .is
    | _ => unexpected
  let _ ← advance
  return operator

/-- A comparison with what stands after the operator. -/
def link : Parse (CompareOp × Expr) := do
  let operator ← compareOp
  return (operator, ← expr .relational)

/-- An argument of a call: by position, by name, or unpacked. A generator that is an argument
needs no parentheses of its own. -/
def argument : Parse (Expr ⊕ Option String × Expr) := do
  if ← skip? .doubleStar then return .inr (none, ← expr .default)
  else if (← kind) = .identifier ∧ (← get).peek 1 = .assign then
    let name ← advance
    let _ ← advance
    return .inr (some name.text, ← expr .default)
  else
    let value ← expr .default
    if atClause (← get) then
      let clauses ← clausesOf expr
      return .inl (.generator (← spanFrom value.span) value clauses)
    else return .inl value

/-- The end of a part of a slice. -/
def atSliceEnd (kind : TokenKind) : Bool :=
  kind = .colon || kind = .comma || kind = .closeBracket

/-- A part of a slice, if there is one. -/
def sliceBound? : Parse (Option Expr) := do
  if atSliceEnd (← kind) then return none else return some (← expr .default)

/-- A slice from its colon on. -/
def sliceAfter (lower : Option Expr) : Parse Expr := do
  let colon ← expect .colon
  let start := (lower.map Expr.span).getD colon.span
  let upper ← sliceBound? expr
  let step ← if ← skip? .colon then sliceBound? expr else pure none
  return .slice (← spanFrom start) lower upper step

/-- An index or a slice. -/
def subscriptItem : Parse Expr := do
  if (← kind) = .colon then sliceAfter expr none
  else
    let lower ← expr .default
    if (← kind) = .colon then sliceAfter expr (some lower) else return lower

/-- What stands between brackets after a value. A comma makes a tuple, which begins at the
bracket. -/
def subscriptIndex (opening : Span) : Parse Expr := do
  let first ← subscriptItem expr
  let single := (← kind) != .comma
  let others ← afterCommas (· = .closeBracket) (subscriptItem expr)
  let _ ← expect .closeBracket
  if single then return first else return .tuple (← spanFrom opening) (first :: others)

/-- The values that an operator joins; a chain of one operator is one list. -/
def joined (operator : BoolOp) (left right : Expr) : List Expr :=
  match left with
  | .boolean _ previous values => if previous = operator then values ++ [right] else [left, right]
  | _ => [left, right]

/-- The expression that a token continues. -/
def continued (left : Expr) (continuation : Continuation) : Parse Expr := do
  let start := left.span
  match continuation with
  | .named =>
    if left.isName then
      let _ ← advance
      let value ← expr .walrus
      return .named (← spanFrom start) left value
    else unexpectedFor "assignment expression target must be a name"
  | .conditional =>
    let _ ← advance
    let test ← expr .ternary
    let _ ← expect .kwElse
    let orelse ← expr .default
    return .conditional (← spanFrom start) test left orelse
  | .boolean operator =>
    let _ ← advance
    let right ← expr operator.power
    return .boolean (← spanFrom start) operator (joined operator left right)
  | .comparison =>
    let first ← link expr
    let others ← manyWhile (·.kind.bindingPower = .relational) (link expr)
    return .comparison (← spanFrom start) left (first :: others)
  | .binary .pow =>
    -- The exponent may carry a sign, and further powers belong to it.
    let _ ← advance
    let right ← expr .multiplicative
    return .binary (← spanFrom start) left .pow right
  | .binary operator =>
    let _ ← advance
    let right ← expr operator.power
    return .binary (← spanFrom start) left operator right
  | .call =>
    let _ ← advance
    let arguments ← untilClosed .closeParen (argument expr)
    let _ ← expect .closeParen
    return .call (← spanFrom start) left (arguments.filterMap Sum.getLeft?)
      (arguments.filterMap Sum.getRight?)
  | .subscript =>
    let opening ← advance
    let index ← subscriptIndex expr opening.span
    return .subscript (← spanFrom start) left index
  | .member =>
    let _ ← advance
    let attr ← expect .identifier
    return .member (← spanFrom start) left attr.text

/-- An expression that goes on as long as the next token binds more strongly than the given
power. -/
def exprOf (power : BindingPower) : Parse Expr := do
  match (← kind).opening? with
  | none => unexpected
  | some opening =>
    let first ← opened expr opening
    loop (fun left => do
      let kind ← kind
      if power < kind.bindingPower then
        match kind.continuation? with
        | none => unexpected
        | some continuation => return .inl (← continued expr left continuation)
      else return .inr left) first

end Rules

/-- Expressions whose parts are nested at most to the given depth. -/
def exprWithin : Nat → BindingPower → Parse Expr
  | 0, _ => throw .exhausted
  | depth + 1, power => exprOf (exprWithin depth) power

/-- An expression read with a binding power. -/
def expr (power : BindingPower) : Parse Expr := do exprWithin (← get).fuel power

/-- An expression, or a tuple without parentheses. -/
def exprList (power : BindingPower) : Parse Expr := exprListOf expr power

/-- Parameters up to a closing token. -/
def parameters (closing : TokenKind) (annotations : Bool) : Parse (List (Parameter Expr)) :=
  parametersOf expr closing annotations

/-- The clauses of a comprehension. -/
def clauses : Parse (List (Clause Expr)) := clausesOf expr

end Parse

end NoteCheck.Code
