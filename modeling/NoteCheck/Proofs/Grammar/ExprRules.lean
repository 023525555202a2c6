/-
# The grammar of expressions

What the reader of expressions reads, as rules: `ReadsExpr s φ t` says that the phrase `φ` stands
at the beginning of the stream `s` and that the stream `t` is left after it. There is one rule for
each way in which a part of an expression can be written, so that what all expressions have in
common is shown rule by rule, without a word about bounds on loops and depth.
-/
import NoteCheck.Code.Grammar.Expr

namespace NoteCheck.Code

/-- What stands in one piece, or a loop over parts. The loops are those of `Parse`. -/
inductive Phrase (ρ : Type) where
  | one (part : ρ)
  | many (more : TokenStream → Bool) (parts : List ρ)
  | afterCommas (atEnd : TokenKind → Bool) (parts : List ρ)
  | untilClosed (closing : TokenKind) (parts : List ρ)

/-- A part of an expression, as it is read. -/
inductive ExprPart where
  | expr (power : BindingPower) (e : Expr)
  | exprList (power : BindingPower) (e : Expr)
  /-- The expression that a token opens. -/
  | opening (e : Expr)
  /-- An expression with all continuations that bind more strongly than a power. -/
  | chain (power : BindingPower) (left e : Expr)
  /-- An expression with one continuation. -/
  | continuation (left e : Expr)
  | literal (token : Token)
  /-- An expression after a mark, if the mark stands there. -/
  | after (mark : TokenKind) (e : Option Expr)
  | parameterName (name : String) (kind : ParameterKind)
  | parameter (annotations : Bool) (p : Parameter Expr)
  | clause (c : Clause Expr)
  | filter (e : Expr)
  | dictEntry (entry : Option Expr × Expr)
  | compareOp (op : CompareOp)
  | link (l : CompareOp × Expr)
  | argument (a : Expr ⊕ Option String × Expr)
  | sliceBound (e : Option Expr)
  /-- A slice from its colon on, with what stands before the colon. -/
  | slice (lower : Option Expr) (e : Expr)
  | subscriptItem (e : Expr)

namespace TokenStream

/-- A string literal stands next. -/
def atLiteral (s : TokenStream) : Bool := s.kind = .string || s.kind = .formattedString

/-- The stream after a token of a kind, if one stands next. -/
def skip (s : TokenStream) (kind : TokenKind) : TokenStream := if s.kind = kind then s.tail else s

/-- A keyword argument stands next. -/
def atKeyword (s : TokenStream) : Bool := s.kind = .identifier && s.peek 1 = .assign

end TokenStream

/-- The expression that string literals side by side make. -/
def Expr.ofLiterals (span : Span) (literals : List Token) : Expr :=
  if literals.any (·.kind = .formattedString) then .formattedString span
  else .constant span (.string (" ".intercalate (literals.map Token.text)))

/-- The comparison that one word or mark stands for. -/
def TokenKind.compareOp? : TokenKind → Option CompareOp
  | .less => some .less
  | .lessEqual => some .lessEqual
  | .greater => some .greater
  | .greaterEqual => some .greaterEqual
  | .equal => some .equal
  | .notEqual => some .notEqual
  | .kwIn => some .isIn
  | _ => none

open Parse (atClause atSliceEnd joined)

/-- A phrase of an expression stands between two streams. -/
inductive ReadsExpr : TokenStream → Phrase ExprPart → TokenStream → Prop
  -- expressions
  | expr {s t u power first e} : ReadsExpr s (.one (.opening first)) t →
      ReadsExpr t (.one (.chain power first e)) u → ReadsExpr s (.one (.expr power e)) u
  | chainEnd {s power e} : ¬power < s.kind.bindingPower → ReadsExpr s (.one (.chain power e e)) s
  | chainNext {s t u power left next e} : power < s.kind.bindingPower →
      ReadsExpr s (.one (.continuation left next)) t →
      ReadsExpr t (.one (.chain power next e)) u → ReadsExpr s (.one (.chain power left e)) u
  | single {s t power e} : ReadsExpr s (.one (.expr power e)) t → t.kind ≠ .comma →
      ReadsExpr s (.one (.exprList power e)) t
  | bareTuple {s t u power first others} : ReadsExpr s (.one (.expr power first)) t →
      t.kind = .comma → ReadsExpr t (.afterCommas (!·.opensExpr) (others.map (.expr power))) u →
      ReadsExpr s (.one (.exprList power (.tuple (first.span.through u.last) (first :: others)))) u
  -- openings
  | name {s} : s.kind = .identifier →
      ReadsExpr s (.one (.opening (.name (s.current.span.through s.tail.last) s.current.text)))
        s.tail
  | number {s} : s.kind = .number →
      ReadsExpr s (.one (.opening (.constant (s.current.span.through s.tail.last)
        (.number s.current.text)))) s.tail
  | constant {s value} : s.kind.opening? = some (.constant value) →
      ReadsExpr s (.one (.opening (.constant (s.current.span.through s.tail.last) value))) s.tail
  | strings {s t others} : s.atLiteral →
      ReadsExpr s.tail (.many TokenStream.atLiteral (others.map .literal)) t →
      ReadsExpr s (.one (.opening (.ofLiterals (s.current.span.through t.last)
        (s.current :: others)))) t
  | unary {s t op e} : s.kind.opening? = some (.unary op) →
      ReadsExpr s.tail (.one (.expr op.power e)) t →
      ReadsExpr s (.one (.opening (.unary (s.current.span.through t.last) op e))) t
  | starred {s t e} : s.kind = .star → ReadsExpr s.tail (.one (.expr .relational e)) t →
      ReadsExpr s (.one (.opening (.starred (s.current.span.through t.last) e))) t
  | await {s t e} : s.kind = .kwAwait → ReadsExpr s.tail (.one (.expr .exponent e)) t →
      ReadsExpr s (.one (.opening (.await (s.current.span.through t.last) e))) t
  | yieldFrom {s t e} : s.kind = .kwYield → s.tail.kind = .kwFrom →
      ReadsExpr s.tail.tail (.one (.expr .default e)) t →
      ReadsExpr s (.one (.opening (.yieldFrom (s.current.span.through t.last) e))) t
  | yieldValue {s t e} : s.kind = .kwYield → s.tail.kind.opensExpr →
      ReadsExpr s.tail (.one (.exprList .default e)) t →
      ReadsExpr s (.one (.opening (.yield (s.current.span.through t.last) (some e)))) t
  | yieldNothing {s} : s.kind = .kwYield → s.tail.kind ≠ .kwFrom → ¬s.tail.kind.opensExpr →
      ReadsExpr s (.one (.opening (.yield (s.current.span.through s.tail.last) none))) s.tail
  | lambda {s t u parameters body} : s.kind = .kwLambda →
      ReadsExpr s.tail (.untilClosed .colon (parameters.map (.parameter false))) t →
      t.kind = .colon → ReadsExpr t.tail (.one (.expr .default body)) u →
      ReadsExpr s (.one (.opening (.lambda (s.current.span.through u.last) parameters body))) u
  -- parentheses
  | unit {s} : s.kind = .openParen → s.tail.kind = .closeParen →
      ReadsExpr s (.one (.opening (.tuple (s.current.span.through s.tail.tail.last) [])))
        s.tail.tail
  | group {s t e} : s.kind = .openParen → ReadsExpr s.tail (.one (.expr .default e)) t →
      t.kind = .closeParen → ReadsExpr s (.one (.opening e)) t.tail
  | tuple {s t u first others} : s.kind = .openParen →
      ReadsExpr s.tail (.one (.expr .default first)) t → t.kind = .comma →
      ReadsExpr t (.afterCommas (· = .closeParen) (others.map (.expr .default))) u →
      u.kind = .closeParen →
      ReadsExpr s (.one (.opening (.tuple (s.current.span.through u.tail.last)
        (first :: others)))) u.tail
  | generator {s t u e clauses} : s.kind = .openParen →
      ReadsExpr s.tail (.one (.expr .default e)) t → atClause t →
      ReadsExpr t (.many atClause (clauses.map .clause)) u → u.kind = .closeParen →
      ReadsExpr s (.one (.opening (.generator (s.current.span.through u.tail.last) e clauses)))
        u.tail
  -- brackets
  | emptyList {s} : s.kind = .openBracket → s.tail.kind = .closeBracket →
      ReadsExpr s (.one (.opening (.listDisplay (s.current.span.through s.tail.tail.last) [])))
        s.tail.tail
  | listDisplay {s t u first others} : s.kind = .openBracket →
      ReadsExpr s.tail (.one (.expr .default first)) t →
      ReadsExpr t (.afterCommas (· = .closeBracket) (others.map (.expr .default))) u →
      u.kind = .closeBracket →
      ReadsExpr s (.one (.opening (.listDisplay (s.current.span.through u.tail.last)
        (first :: others)))) u.tail
  | listComprehension {s t u e clauses} : s.kind = .openBracket →
      ReadsExpr s.tail (.one (.expr .default e)) t → atClause t →
      ReadsExpr t (.many atClause (clauses.map .clause)) u → u.kind = .closeBracket →
      ReadsExpr s (.one (.opening (.listComprehension (s.current.span.through u.tail.last) e
        clauses))) u.tail
  -- braces
  | emptyDict {s} : s.kind = .openBrace → s.tail.kind = .closeBrace →
      ReadsExpr s (.one (.opening (.dictDisplay (s.current.span.through s.tail.tail.last) [])))
        s.tail.tail
  | unpackedDict {s t entries} : s.kind = .openBrace → s.tail.kind = .doubleStar →
      ReadsExpr s.tail (.untilClosed .closeBrace (entries.map .dictEntry)) t →
      t.kind = .closeBrace →
      ReadsExpr s (.one (.opening (.dictDisplay (s.current.span.through t.tail.last) entries)))
        t.tail
  | dictDisplay {s t u v key value entries} : s.kind = .openBrace →
      ReadsExpr s.tail (.one (.expr .default key)) t → t.kind = .colon →
      ReadsExpr t.tail (.one (.expr .default value)) u →
      ReadsExpr (u.skip .comma) (.untilClosed .closeBrace (entries.map .dictEntry)) v →
      v.kind = .closeBrace →
      ReadsExpr s (.one (.opening (.dictDisplay (s.current.span.through v.tail.last)
        ((some key, value) :: entries)))) v.tail
  | dictComprehension {s t u v key value clauses} : s.kind = .openBrace →
      ReadsExpr s.tail (.one (.expr .default key)) t → t.kind = .colon →
      ReadsExpr t.tail (.one (.expr .default value)) u → atClause u →
      ReadsExpr u (.many atClause (clauses.map .clause)) v → v.kind = .closeBrace →
      ReadsExpr s (.one (.opening (.dictComprehension (s.current.span.through v.tail.last) key
        value clauses))) v.tail
  | setDisplay {s t u first others} : s.kind = .openBrace →
      ReadsExpr s.tail (.one (.expr .default first)) t →
      ReadsExpr t (.afterCommas (· = .closeBrace) (others.map (.expr .default))) u →
      u.kind = .closeBrace →
      ReadsExpr s (.one (.opening (.setDisplay (s.current.span.through u.tail.last)
        (first :: others)))) u.tail
  | setComprehension {s t u e clauses} : s.kind = .openBrace →
      ReadsExpr s.tail (.one (.expr .default e)) t → atClause t →
      ReadsExpr t (.many atClause (clauses.map .clause)) u → u.kind = .closeBrace →
      ReadsExpr s (.one (.opening (.setComprehension (s.current.span.through u.tail.last) e
        clauses))) u.tail
  -- continuations
  | named {s t left e} : s.kind = .colonAssign → left.isName →
      ReadsExpr s.tail (.one (.expr .walrus e)) t →
      ReadsExpr s (.one (.continuation left (.named (left.span.through t.last) left e))) t
  | conditional {s t u left test orelse} : s.kind = .kwIf →
      ReadsExpr s.tail (.one (.expr .ternary test)) t → t.kind = .kwElse →
      ReadsExpr t.tail (.one (.expr .default orelse)) u →
      ReadsExpr s (.one (.continuation left (.conditional (left.span.through u.last) test left
        orelse))) u
  | boolean {s t left op right} : s.kind.continuation? = some (.boolean op) →
      ReadsExpr s.tail (.one (.expr op.power right)) t →
      ReadsExpr s (.one (.continuation left (.boolean (left.span.through t.last) op
        (joined op left right)))) t
  | comparison {s t u left first others} : ReadsExpr s (.one (.link first)) t →
      ReadsExpr t (.many (·.kind.bindingPower = .relational) (others.map .link)) u →
      ReadsExpr s (.one (.continuation left (.comparison (left.span.through u.last) left
        (first :: others)))) u
  | pow {s t left right} : s.kind = .doubleStar →
      ReadsExpr s.tail (.one (.expr .multiplicative right)) t →
      ReadsExpr s (.one (.continuation left (.binary (left.span.through t.last) left .pow right))) t
  | binary {s t left op right} : s.kind.binaryOp? = some op → op ≠ .pow →
      ReadsExpr s.tail (.one (.expr op.power right)) t →
      ReadsExpr s (.one (.continuation left (.binary (left.span.through t.last) left op right))) t
  | call {s t left} {arguments : List (Expr ⊕ Option String × Expr)} : s.kind = .openParen →
      ReadsExpr s.tail (.untilClosed .closeParen (arguments.map .argument)) t →
      t.kind = .closeParen →
      ReadsExpr s (.one (.continuation left (.call (left.span.through t.tail.last) left
        (arguments.filterMap Sum.getLeft?) (arguments.filterMap Sum.getRight?)))) t.tail
  | index {s t left e} : s.kind = .openBracket → ReadsExpr s.tail (.one (.subscriptItem e)) t →
      t.kind = .closeBracket →
      ReadsExpr s (.one (.continuation left (.subscript (left.span.through t.tail.last) left e)))
        t.tail
  | indexTuple {s t u left first others} : s.kind = .openBracket →
      ReadsExpr s.tail (.one (.subscriptItem first)) t → t.kind = .comma →
      ReadsExpr t (.afterCommas (· = .closeBracket) (others.map .subscriptItem)) u →
      u.kind = .closeBracket →
      ReadsExpr s (.one (.continuation left (.subscript (left.span.through u.tail.last) left
        (.tuple (s.current.span.through u.tail.last) (first :: others))))) u.tail
  | member {s left} : s.kind = .dot → s.tail.kind = .identifier →
      ReadsExpr s (.one (.continuation left (.member (left.span.through s.tail.tail.last) left
        s.tail.current.text))) s.tail.tail
  -- parts of expressions
  | literal {s} : s.atLiteral → ReadsExpr s (.one (.literal s.current)) s.tail
  | afterNothing {s mark} : s.kind ≠ mark → ReadsExpr s (.one (.after mark none)) s
  | after {s t mark e} : mark ∈ [.colon, .assign, .arrow] → s.kind = mark →
      ReadsExpr s.tail (.one (.expr .default e)) t → ReadsExpr s (.one (.after mark (some e))) t
  | varArgs {s} : s.kind = .star → s.tail.kind = .identifier →
      ReadsExpr s (.one (.parameterName s.tail.current.text .varArgs)) s.tail.tail
  | keywordOnlyMarker {s} : s.kind = .star → s.tail.kind ≠ .identifier →
      ReadsExpr s (.one (.parameterName "" .keywordOnlyMarker)) s.tail
  | varKeyword {s} : s.kind = .doubleStar → s.tail.kind = .identifier →
      ReadsExpr s (.one (.parameterName s.tail.current.text .varKeyword)) s.tail.tail
  | positionalOnlyMarker {s} : s.kind = .slash →
      ReadsExpr s (.one (.parameterName "" .positionalOnlyMarker)) s.tail
  | positional {s} : s.kind = .identifier →
      ReadsExpr s (.one (.parameterName s.current.text .positional)) s.tail
  | parameter {s t u v name kind annotation default} :
      ReadsExpr s (.one (.parameterName name kind)) t →
      ReadsExpr t (.one (.after .colon annotation)) u →
      ReadsExpr u (.one (.after .assign default)) v →
      ReadsExpr s (.one (.parameter true { name, kind, annotation, default })) v
  | lambdaParameter {s t u name kind default} :
      ReadsExpr s (.one (.parameterName name kind)) t →
      ReadsExpr t (.one (.after .assign default)) u →
      ReadsExpr s (.one (.parameter false { name, kind, annotation := none, default })) u
  | clause {s t u v target source filters} : s.kind = .kwFor →
      ReadsExpr s.tail (.one (.exprList .relational target)) t → t.kind = .kwIn →
      ReadsExpr t.tail (.one (.expr .ternary source)) u →
      ReadsExpr u (.many (·.kind = .kwIf) (filters.map .filter)) v →
      ReadsExpr s (.one (.clause { target, source, filters, isAsync := false })) v
  | asyncClause {s t u v target source filters} : s.kind = .kwAsync → s.tail.kind = .kwFor →
      ReadsExpr s.tail.tail (.one (.exprList .relational target)) t → t.kind = .kwIn →
      ReadsExpr t.tail (.one (.expr .ternary source)) u →
      ReadsExpr u (.many (·.kind = .kwIf) (filters.map .filter)) v →
      ReadsExpr s (.one (.clause { target, source, filters, isAsync := true })) v
  | filter {s t e} : s.kind = .kwIf → ReadsExpr s.tail (.one (.expr .ternary e)) t →
      ReadsExpr s (.one (.filter e)) t
  | unpackedEntry {s t e} : s.kind = .doubleStar →
      ReadsExpr s.tail (.one (.expr .relational e)) t → ReadsExpr s (.one (.dictEntry (none, e))) t
  | dictEntry {s t u key e} : ReadsExpr s (.one (.expr .default key)) t → t.kind = .colon →
      ReadsExpr t.tail (.one (.expr .default e)) u → ReadsExpr s (.one (.dictEntry (some key, e))) u
  | compareOp {s op} : s.kind.compareOp? = some op → ReadsExpr s (.one (.compareOp op)) s.tail
  | notIn {s} : s.kind = .kwNot → s.tail.kind = .kwIn →
      ReadsExpr s (.one (.compareOp .notIn)) s.tail.tail
  | isNot {s} : s.kind = .kwIs → s.peek 1 = .kwNot →
      ReadsExpr s (.one (.compareOp .isNot)) s.tail.tail
  | is {s} : s.kind = .kwIs → s.peek 1 ≠ .kwNot → ReadsExpr s (.one (.compareOp .is)) s.tail
  | link {s t u op e} : ReadsExpr s (.one (.compareOp op)) t →
      ReadsExpr t (.one (.expr .relational e)) u → ReadsExpr s (.one (.link (op, e))) u
  | unpackedArgument {s t e} : s.kind = .doubleStar →
      ReadsExpr s.tail (.one (.expr .default e)) t →
      ReadsExpr s (.one (.argument (.inr (none, e)))) t
  | keywordArgument {s t e} : s.atKeyword → ReadsExpr s.tail.tail (.one (.expr .default e)) t →
      ReadsExpr s (.one (.argument (.inr (some s.current.text, e)))) t
  | generatorArgument {s t u e clauses} : ¬s.atKeyword →
      ReadsExpr s (.one (.expr .default e)) t → atClause t →
      ReadsExpr t (.many atClause (clauses.map .clause)) u →
      ReadsExpr s (.one (.argument (.inl (.generator (e.span.through u.last) e clauses)))) u
  | argument {s t e} : ¬s.atKeyword → ReadsExpr s (.one (.expr .default e)) t → ¬atClause t →
      ReadsExpr s (.one (.argument (.inl e))) t
  | unbounded {s} : atSliceEnd s.kind → ReadsExpr s (.one (.sliceBound none)) s
  | sliceBound {s t e} : ¬atSliceEnd s.kind → ReadsExpr s (.one (.expr .default e)) t →
      ReadsExpr s (.one (.sliceBound (some e))) t
  | slice {s t lower upper} : s.kind = .colon → ReadsExpr s.tail (.one (.sliceBound upper)) t →
      t.kind ≠ .colon →
      ReadsExpr s (.one (.slice lower (.slice
        (((lower.map Expr.span).getD s.current.span).through t.last) lower upper none))) t
  | steppedSlice {s t u lower upper step} : s.kind = .colon →
      ReadsExpr s.tail (.one (.sliceBound upper)) t → t.kind = .colon →
      ReadsExpr t.tail (.one (.sliceBound step)) u →
      ReadsExpr s (.one (.slice lower (.slice
        (((lower.map Expr.span).getD s.current.span).through u.last) lower upper step))) u
  | sliceItem {s t e} : s.kind = .colon → ReadsExpr s (.one (.slice none e)) t →
      ReadsExpr s (.one (.subscriptItem e)) t
  | boundedSliceItem {s t u lower e} : ReadsExpr s (.one (.expr .default lower)) t →
      t.kind = .colon → ReadsExpr t (.one (.slice (some lower) e)) u →
      ReadsExpr s (.one (.subscriptItem e)) u
  | subscriptItem {s t e} : ReadsExpr s (.one (.expr .default e)) t → t.kind ≠ .colon →
      ReadsExpr s (.one (.subscriptItem e)) t
  -- loops
  | manyDone {s more} : more s = false → ReadsExpr s (.many more []) s
  | manyNext {s t u more part parts} : more s = true → ReadsExpr s (.one part) t →
      ReadsExpr t (.many more parts) u → ReadsExpr s (.many more (part :: parts)) u
  | commasDone {s atEnd} : s.kind ≠ .comma → ReadsExpr s (.afterCommas atEnd []) s
  | commasLast {s atEnd} : s.kind = .comma → atEnd s.tail.kind = true →
      ReadsExpr s (.afterCommas atEnd []) s.tail
  | commasNext {s t u atEnd part parts} : s.kind = .comma → atEnd s.tail.kind = false →
      ReadsExpr s.tail (.one part) t → ReadsExpr t (.afterCommas atEnd parts) u →
      ReadsExpr s (.afterCommas atEnd (part :: parts)) u
  | closedDone {s closing} : s.kind = closing → ReadsExpr s (.untilClosed closing []) s
  | closedLast {s t closing part} : s.kind ≠ closing → ReadsExpr s (.one part) t →
      t.kind ≠ .comma → ReadsExpr s (.untilClosed closing [part]) t
  | closedNext {s t u closing part parts} : s.kind ≠ closing → ReadsExpr s (.one part) t →
      t.kind = .comma → ReadsExpr t.tail (.untilClosed closing parts) u →
      ReadsExpr s (.untilClosed closing (part :: parts)) u

/-- Where no comma stands, nothing is read after one. -/
theorem ReadsExpr.eq_of_ne_comma {s t : TokenStream} {atEnd : TokenKind → Bool}
    {parts : List ExprPart} (h : ReadsExpr s (.afterCommas atEnd parts) t)
    (hcomma : s.kind ≠ .comma) : t = s := by
  cases h with
  | commasDone => rfl
  | commasLast hcomma' => exact absurd hcomma' hcomma
  | commasNext hcomma' => exact absurd hcomma' hcomma

end NoteCheck.Code
