/-
# Reading expressions with one token of lookahead

No part of an expression is read with more than one token in sight beyond the place that has been
come to. There are three that look beyond the next token: `async` before a clause, `is` before
`not`, and a name before the mark that makes it a keyword.
-/
import NoteCheck.Proofs.Grammar.Local

namespace NoteCheck.Code

open TokenStream

namespace Parse

/-- Where a clause of a comprehension begins is seen by one token and the one after it. -/
theorem looks_atClause {P : TokenStream → Prop} : Looks P atClause := by
  intro s hs _ rest s' hshares hbefore
  unfold atClause
  rw [hshares.kind_eq hbefore]
  split
  case h_2 hasync => rw [hshares.peek_eq hbefore hs (by rw [hasync]; decide)]
  all_goals rfl

/-- The name of a parameter is read locally, with the stars before it. -/
theorem local_parameterName : Near parameterName parameterName := by
  refine .kind fun kind => ?_
  split
  · refine .advance fun _ => .kind fun kind => .ite (fun _ => ?_) fun _ => .pure
    exact .advance fun _ => .pure
  · exact .advance fun _ => Local.expect fun _ => .pure
  · exact .advance fun _ => .pure
  · exact .advance fun _ => .pure
  · exact .unexpectedFor

section Rules

variable {expr expr' : BindingPower → Parse Expr} (h : ∀ power, Near (expr power) (expr' power))

include h

/-- Whether an expression goes on as a tuple is seen by the comma after it. -/
theorem local_exprListOf (power : BindingPower) :
    Near (exprListOf expr power) (exprListOf expr' power) := by
  refine (h power).bind fun first => .kind fun kind => .ite (fun _ => ?_) fun _ => .pure
  exact (Local.afterCommas (h power)).bind fun others => .spanFrom fun span => .pure

/-! ## Parameters and comprehensions -/

/-- Whether an expression stands after a mark is seen by the mark. -/
theorem local_exprAfter? (mark : TokenKind) : Near (exprAfter? expr mark) (exprAfter? expr' mark) :=
  .skip? fun _ => .ite (fun _ => (h .default).bind fun _ => .pure) fun _ => .pure

/-- A parameter is read locally when its annotation and its default are. -/
theorem local_parameter (annotations : Bool) :
    Near (parameter expr annotations) (parameter expr' annotations) := by
  refine local_parameterName.bind fun found => ?_
  have hdefault (type : Option Expr) : Near
      (do return Parameter.mk found.1 found.2 type (← exprAfter? expr .assign))
      (do return Parameter.mk found.1 found.2 type (← exprAfter? expr' .assign)) :=
    (local_exprAfter? h .assign).bind fun _ => .pure
  refine .ite (fun _ => (local_exprAfter? h .colon).bind hdefault) fun _ => ?_
  exact .pureBind (hdefault _)

/-- Parameters are read locally up to the closing token. -/
theorem local_parametersOf (closing : TokenKind) (annotations : Bool) :
    Near (parametersOf expr closing annotations) (parametersOf expr' closing annotations) :=
  .untilClosed (local_parameter h annotations)

/-- A clause of a comprehension is read locally when its parts are. -/
theorem local_clause : Near (clause expr) (clause expr') := by
  refine .skip? fun isAsync => Local.expect fun _ => ?_
  refine (local_exprListOf h .relational).bind fun target => Local.expect fun _ => ?_
  refine (h .ternary).bind fun source => ?_
  have hfilter : Near (do let _ ← advance; expr .ternary) (do let _ ← advance; expr' .ternary) :=
    .advance fun _ => h .ternary
  exact (Local.manyWhile (looks_kind.map fun kind => decide (kind = .kwIf)) hfilter).bind fun _ =>
    .pure

/-- The clauses of a comprehension are read locally, for each is seen where it begins. -/
theorem local_clausesOf : Near (clausesOf expr) (clausesOf expr') :=
  .manyWhile looks_atClause (local_clause h)

omit h in
/-- What is read depending on whether a clause begins is local when both ways are. -/
theorem local_ifClause {α : Type} {p q p' q' : Parse α} (hp : Near p p') (hq : Near q q') :
    Near (do if atClause (← get) then p else q) (do if atClause (← get) then p' else q') := by
  exact .getIf (looks_atClause.map (· = true)) hp hq

/-! ## Brackets -/

/-- Elements after the first one are read locally up to the closing bracket. -/
theorem local_elementsAfter (first : Expr) (closing : TokenKind) :
    Near (elementsAfter expr first closing) (elementsAfter expr' first closing) :=
  (Local.afterCommas (h .default)).bind fun _ => Local.expect fun _ => .pure

/-- The clauses of a comprehension, its closing bracket and what they make. -/
theorem local_comprehension (start : Span) (closing : TokenKind)
    (node : List (Clause Expr) → Span → Expr) : Near
      (do
        let clauses ← clausesOf expr
        let _ ← expect closing
        return node clauses (← spanFrom start))
      (do
        let clauses ← clausesOf expr'
        let _ ← expect closing
        return node clauses (← spanFrom start)) :=
  (local_clausesOf h).bind fun _ => Local.expect fun _ => .spanFrom fun _ => .pure

/-- The elements of a display, its closing bracket and what they make. -/
theorem local_display (start : Span) (first : Expr) (closing : TokenKind)
    (node : List Expr → Span → Expr) : Near
      (do
        let elements ← elementsAfter expr first closing
        return node elements (← spanFrom start))
      (do
        let elements ← elementsAfter expr' first closing
        return node elements (← spanFrom start)) :=
  (local_elementsAfter h first closing).bind fun _ => .spanFrom fun _ => .pure

/-- What a parenthesis opens is seen by what stands after it and after an expression in it. -/
theorem local_afterParen (start : Span) :
    Near (afterParen expr start) (afterParen expr' start) := by
  refine .skip? fun _ => .ite (fun _ => .spanFrom fun _ => .pure) fun _ => ?_
  refine (h .default).bind fun first => local_ifClause ?_ ?_
  · exact local_comprehension h start _ fun clauses span => .generator span first clauses
  · refine .kind fun _ => .ite (fun _ => ?_) fun _ => Local.expect fun _ => .pure
    exact local_display h start first _ fun elements span => .tuple span elements

/-- What a bracket opens is seen by what stands after it and after an expression in it. -/
theorem local_afterBracket (start : Span) :
    Near (afterBracket expr start) (afterBracket expr' start) := by
  refine .skip? fun _ => .ite (fun _ => .spanFrom fun _ => .pure) fun _ => ?_
  refine (h .default).bind fun first => local_ifClause ?_ ?_
  · exact local_comprehension h start _ fun clauses span => .listComprehension span first clauses
  · exact local_display h start first _ fun elements span => .listDisplay span elements

/-- An entry of a dict is read locally. -/
theorem local_dictEntry : Near (dictEntry expr) (dictEntry expr') := by
  refine .skip? fun _ => .ite (fun _ => (h .relational).bind fun _ => .pure) fun _ => ?_
  exact (h .default).bind fun key => Local.expect fun _ => (h .default).bind fun _ => .pure

/-- Further entries of a dict are read locally up to its brace. -/
theorem local_dictAfter (start : Span) (entries : List (Option Expr × Expr)) :
    Near (dictAfter expr start entries) (dictAfter expr' start entries) := by
  refine (Local.untilClosed (local_dictEntry h)).bind fun others => ?_
  exact Local.expect fun _ => .spanFrom fun _ => .pure

/-- What a brace opens is seen by what stands after it and after an expression in it. -/
theorem local_afterBrace (start : Span) :
    Near (afterBrace expr start) (afterBrace expr' start) := by
  refine .skip? fun _ => .ite (fun _ => .spanFrom fun _ => .pure) fun _ => ?_
  refine .kind fun _ => .ite (fun _ => local_dictAfter h start []) fun _ => ?_
  refine (h .default).bind fun first => .skip? fun _ => .ite (fun _ => ?_) fun _ => ?_
  · refine (h .default).bind fun value => local_ifClause ?_ ?_
    · exact local_comprehension h start _ fun clauses span =>
        .dictComprehension span first value clauses
    · exact .skip? fun _ => local_dictAfter h start _
  · refine local_ifClause ?_ ?_
    · exact local_comprehension h start _ fun clauses span => .setComprehension span first clauses
    · exact local_display h start first _ fun elements span => .setDisplay span elements

/-! ## Openings -/

omit h in
/-- String literals are read up to a token that is none. -/
theorem local_strings (first : Token) : Near (strings first) (strings first) := by
  refine (Local.manyWhile (looks_kind.map fun kind => kind = .string || kind = .formattedString)
    .take).bind fun others => .spanFrom fun span => ?_
  exact .ite (fun _ => .pure) fun _ => .pure

/-- What is yielded is read locally. -/
theorem local_afterYield (start : Span) :
    Near (afterYield expr start) (afterYield expr' start) := by
  refine .skip? fun _ => .ite (fun _ => ?_) fun _ => .kind fun _ => .ite (fun _ => ?_) fun _ => ?_
  · exact (h .default).bind fun _ => .spanFrom fun _ => .pure
  · exact (local_exprListOf h .default).bind fun _ => .spanFrom fun _ => .pure
  · exact .spanFrom fun _ => .pure

/-- The expression that a token opens is read locally. -/
theorem local_opened (opening : Opening) : Near (opened expr opening) (opened expr' opening) := by
  have hoperand (power : BindingPower) (start : Span) (node : Span → Expr → Expr) :
      Near (do let operand ← expr power; return node (← spanFrom start) operand)
        (do let operand ← expr' power; return node (← spanFrom start) operand) :=
    (h power).bind fun _ => .spanFrom fun _ => .pure
  refine .advance fun token => ?_
  cases opening with
  | name | number | constant => exact .spanFrom fun _ => .pure
  | string => exact local_strings token
  | unary operator => exact hoperand operator.power _ fun span => .unary span operator
  | starred => exact hoperand .relational _ .starred
  | await => exact hoperand .exponent _ .await
  | yield => exact local_afterYield h _
  | lambda =>
    refine (local_parametersOf h .colon false).bind fun _ => Local.expect fun _ => ?_
    exact (h .default).bind fun _ => .spanFrom fun _ => .pure
  | parens => exact local_afterParen h _
  | brackets => exact local_afterBracket h _
  | braces => exact local_afterBrace h _

/-! ## Continuations -/

omit h in
/-- An operator of two words is seen by the second one. -/
theorem local_compareOp : Near compareOp compareOp := by
  have hrest (operator : CompareOp) : Near (do let _ ← advance; return operator)
      (do let _ ← advance; return operator) :=
    .advance fun _ => .pure
  have hpure (operator : CompareOp) : Near
      (pure operator >>= fun operator => do let _ ← advance; return operator)
      (pure operator >>= fun operator => do let _ ← advance; return operator) :=
    .pureBind (hrest _)
  refine .kindOf fun kind => ?_
  split
  case h_8 =>
    refine .advance fun _ => .kind fun _ => .ite (fun _ => hpure _) fun _ => ?_
    exact .unexpectedFor
  case h_9 =>
    have hpeek : Looks (fun s => True ∧ s.kind = .kwIs) fun s => s.peek 1 :=
      looks_peek fun s hs => by rw [hs.2]; decide
    exact .getIf (hpeek.map (· = .kwNot)) (.advance fun _ => hpure _) (hpure _).on
  case h_10 => exact .unexpected
  all_goals exact (hpure _).on

/-- A comparison is read locally when the operand after its operator is. -/
theorem local_link : Near (link expr) (link expr') :=
  local_compareOp.bind fun _ => (h .relational).bind fun _ => .pure

/-- An argument by name is seen by the mark of an assignment after the name. -/
theorem local_argument : Near (argument expr) (argument expr') := by
  refine .skip? fun _ => .ite (fun _ => (h .default).bind fun _ => .pure) fun _ => ?_
  refine .kindOf fun kind => .getIf ?_ ?_ ?_
  · by_cases hkind : kind = .identifier
    · have hpeek : Looks (fun s => True ∧ s.kind = kind) fun s => s.peek 1 :=
        looks_peek fun s hs => by rw [hs.2, hkind]; decide
      exact hpeek.map fun next => kind = .identifier ∧ next = .assign
    · exact fun _ _ _ _ _ _ _ => by simp only [hkind, false_and]
  · exact .advance fun _ => .advance fun _ => (h .default).bind fun _ => .pure
  · refine (h .default).on.bind fun value => local_ifClause ?_ .pure
    exact (local_clausesOf h).bind fun _ => .spanFrom fun _ => .pure

/-- Whether a part of a slice is there is seen by the next token. -/
theorem local_sliceBound? : Near (sliceBound? expr) (sliceBound? expr') :=
  .kind fun _ => .ite (fun _ => .pure) fun _ => (h .default).bind fun _ => .pure

/-- A slice is read locally from its colon on. -/
theorem local_sliceAfter (lower : Option Expr) :
    Near (sliceAfter expr lower) (sliceAfter expr' lower) := by
  refine Local.expect fun colon => (local_sliceBound? h).bind fun upper => ?_
  have hstep (step : Option Expr) : Near
      (do return Expr.slice (← spanFrom ((lower.map Expr.span).getD colon.span)) lower upper step)
      (do
        return Expr.slice (← spanFrom ((lower.map Expr.span).getD colon.span)) lower upper step) :=
    .spanFrom fun _ => .pure
  refine .skip? fun _ => .ite (fun _ => (local_sliceBound? h).bind hstep) fun _ => ?_
  exact .pureBind (hstep _)

/-- Whether an index is a slice is seen by the colon. -/
theorem local_subscriptItem : Near (subscriptItem expr) (subscriptItem expr') := by
  refine .kind fun _ => .ite (fun _ => local_sliceAfter h none) fun _ => ?_
  refine (h .default).bind fun lower => .kind fun _ => .ite (fun _ => ?_) fun _ => .pure
  exact local_sliceAfter h (some lower)

/-- What stands between the brackets of a subscript is read locally. -/
theorem local_subscriptIndex (start : Span) :
    Near (subscriptIndex expr start) (subscriptIndex expr' start) := by
  refine (local_subscriptItem h).bind fun first => .kind fun _ => ?_
  refine (Local.afterCommas (local_subscriptItem h)).bind fun others => Local.expect fun _ => ?_
  exact .ite (fun _ => .pure) fun _ => .spanFrom fun _ => .pure

/-- The expression that a token continues is read locally. -/
theorem local_continued (left : Expr) (continuation : Continuation) :
    Near (continued expr left continuation) (continued expr' left continuation) := by
  have hoperand (power : BindingPower) (node : Span → Expr → Expr) : Near
      (do let _ ← advance; let e ← expr power; return node (← spanFrom left.span) e)
      (do let _ ← advance; let e ← expr' power; return node (← spanFrom left.span) e) :=
    .advance fun _ => (h power).bind fun _ => .spanFrom fun _ => .pure
  cases continuation with
  | named =>
    exact .ite (fun _ => hoperand .walrus fun span => .named span left) fun _ => .unexpectedFor
  | conditional =>
    refine .advance fun _ => (h .ternary).bind fun _ => Local.expect fun _ => ?_
    exact (h .default).bind fun _ => .spanFrom fun _ => .pure
  | boolean operator =>
    exact hoperand operator.power fun span e => .boolean span operator (joined operator left e)
  | comparison =>
    refine (local_link h).bind fun _ => ?_
    refine (Local.manyWhile (looks_kind.map fun kind => decide (kind.bindingPower = .relational))
      (local_link h)).bind fun _ => ?_
    exact .spanFrom fun _ => .pure
  | binary operator =>
    cases operator
    all_goals exact hoperand _ fun span => .binary span left _
  | call =>
    refine .advance fun _ => (Local.untilClosed (local_argument h)).bind fun _ => ?_
    exact Local.expect fun _ => .spanFrom fun _ => .pure
  | subscript =>
    exact .advance fun _ => (local_subscriptIndex h _).bind fun _ => .spanFrom fun _ => .pure
  | member => exact .advance fun _ => Local.expect fun _ => .spanFrom fun _ => .pure

/-- With a local way to read parts, an expression is read locally: how strongly the next token binds
is seen. -/
theorem local_exprOf (power : BindingPower) : Near (exprOf expr power) (exprOf expr' power) := by
  refine .kind fun kind => ?_
  cases kind.opening? with
  | none => exact .unexpected
  | some opening =>
    refine (local_opened h opening).bind fun first => .loop (fun left => .kind fun kind => ?_) first
    refine .ite (fun _ => ?_) fun _ => .pure
    cases kind.continuation? with
    | none => exact .unexpected
    | some continuation => exact (local_continued h left continuation).bind fun _ => .pure

end Rules

/-- Expressions are read with one token in sight, whatever the bounds on the depth. -/
theorem local_exprWithin (i j : Nat) (power : BindingPower) :
    Near (exprWithin i power) (exprWithin j power) := by
  induction i generalizing j power with
  | zero => exact .exhausted
  | succ i ih =>
    have hstep (j : Nat) : Near (exprWithin (i + 1) power) (exprWithin (j + 1) power) :=
      local_exprOf (ih j) power
    cases j with
    | zero => exact (hstep 0).halted
    | succ j => exact hstep j

/-- An expression is read locally. -/
theorem local_expr (power : BindingPower) : Near (expr power) (expr power) :=
  .fuel fun i j => local_exprWithin i j power

/-- A tuple without parentheses is read locally. -/
theorem local_exprList (power : BindingPower) : Near (exprList power) (exprList power) :=
  local_exprListOf local_expr power

end Parse

end NoteCheck.Code
