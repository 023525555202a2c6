/-
# Reading expressions within the bounds

Every part of an expression that is read takes a token, and so the parts are nested no deeper than
there are tokens left. The main statement is `Parse.takes_exprWithin`.
-/
import NoteCheck.Proofs.Grammar.Bounded

namespace NoteCheck.Code

/-- The end of the text opens no expression. -/
theorem TokenKind.ne_endOfFile_of_opening? {kind : TokenKind} {opening : Opening}
    (h : kind.opening? = some opening) : kind ≠ .endOfFile := by
  rintro rfl
  cases h

namespace Parse

/-- The name of a parameter takes a token. -/
theorem takes_parameterName {depth : Nat} : Takes depth parameterName parameterName := by
  refine .kindOf fun kind => ?_
  split
  · refine .takeOf (by decide) fun _ => .kind fun kind => .ite (fun _ => ?_) fun _ => .pure rfl
    exact .advance fun _ => .pure rfl
  · exact .takeOf (by decide) fun _ => Bounded.expect (by decide) fun _ => .pure rfl
  · exact .takeOf (by decide) fun _ => .pure rfl
  · exact .takeOf (by decide) fun _ => .pure rfl
  · exact .unexpectedFor

section Rules

variable {depth : Nat} {expr expr' : BindingPower → Parse Expr}
  (h : ∀ power, Takes depth (expr power) (expr' power))

include h

/-- An expression takes a token, with a comma after it or without. -/
theorem takes_exprListOf (power : BindingPower) :
    Takes depth (exprListOf expr power) (exprListOf expr' power) := by
  refine (h power).bind fun first => .kind fun kind => .ite (fun _ => ?_) fun _ => .pure rfl
  exact (Bounded.afterCommas (h power)).bind fun others => .spanFrom fun span => .pure rfl

/-! ## Parameters and comprehensions -/

/-- What stands after a mark comes to no bound. -/
theorem keeps_exprAfter? (mark : TokenKind) :
    Keeps depth (exprAfter? expr mark) (exprAfter? expr' mark) :=
  .skip? fun _ => .ite (fun _ => (h .default).bind fun _ => .pure rfl) fun _ => .pure rfl

/-- A parameter takes a token. -/
theorem takes_parameter (annotations : Bool) :
    Takes depth (parameter expr annotations) (parameter expr' annotations) := by
  refine takes_parameterName.bind fun found => ?_
  have hdefault (type : Option Expr) : Keeps depth
      (do return Parameter.mk found.1 found.2 type (← exprAfter? expr .assign))
      (do return Parameter.mk found.1 found.2 type (← exprAfter? expr' .assign)) :=
    (keeps_exprAfter? h .assign).bind fun _ => .pure rfl
  refine .ite (fun _ => (keeps_exprAfter? h .colon).bind hdefault) fun _ => ?_
  exact .pureBind (hdefault _)

/-- Parameters come to no bound, for each of them takes a token. -/
theorem keeps_parametersOf (closing : TokenKind) (annotations : Bool) :
    Keeps depth (parametersOf expr closing annotations) (parametersOf expr' closing annotations) :=
  .untilClosed (takes_parameter h annotations)

/-- A clause of a comprehension takes a token. -/
theorem takes_clause : Takes depth (clause expr) (clause expr') := by
  refine .skip? fun isAsync => Bounded.expect (by decide) fun _ => ?_
  refine (takes_exprListOf h .relational).bind fun target => Bounded.expect (by decide) fun _ => ?_
  refine (h .ternary).bind fun source => ?_
  have hfilter :
      Takes depth (do let _ ← advance; expr .ternary) (do let _ ← advance; expr' .ternary) :=
    .advance fun _ => h .ternary
  exact (Bounded.manyWhile hfilter.on).bind fun filters => .pure rfl

/-- Clauses of a comprehension come to no bound, for each of them takes a token. -/
theorem keeps_clausesOf : Keeps depth (clausesOf expr) (clausesOf expr') :=
  .manyWhile (takes_clause h).on

/-! ## Brackets -/

/-- Elements after the first one take the closing bracket at least. -/
theorem takes_elementsAfter (first : Expr) {closing : TokenKind}
    (hclosing : closing ≠ .endOfFile) :
    Takes depth (elementsAfter expr first closing) (elementsAfter expr' first closing) := by
  refine (Bounded.afterCommas (h .default)).bind fun others => ?_
  exact Bounded.expect hclosing fun _ => .pure rfl

/-- The clauses of a comprehension, its closing bracket and what they make. -/
theorem keeps_comprehension (start : Span) {closing : TokenKind} (hclosing : closing ≠ .endOfFile)
    (node : List (Clause Expr) → Span → Expr) : Keeps depth
      (do
        let clauses ← clausesOf expr
        let _ ← expect closing
        return node clauses (← spanFrom start))
      (do
        let clauses ← clausesOf expr'
        let _ ← expect closing
        return node clauses (← spanFrom start)) :=
  (keeps_clausesOf h).bind fun _ => Bounded.expect hclosing fun _ => .spanFrom fun _ => .pure rfl

/-- The elements of a display, its closing bracket and what they make. -/
theorem keeps_display (start : Span) (first : Expr) {closing : TokenKind}
    (hclosing : closing ≠ .endOfFile) (node : List Expr → Span → Expr) : Keeps depth
      (do
        let elements ← elementsAfter expr first closing
        return node elements (← spanFrom start))
      (do
        let elements ← elementsAfter expr' first closing
        return node elements (← spanFrom start)) :=
  (takes_elementsAfter h first hclosing).bind fun _ => .spanFrom fun _ => .pure rfl

/-- What stands after a parenthesis comes to no bound. -/
theorem keeps_afterParen (start : Span) :
    Keeps depth (afterParen expr start) (afterParen expr' start) := by
  refine .skip? fun _ => .ite (fun _ => .spanFrom fun _ => .pure rfl) fun _ => ?_
  refine (h .default).bind fun first => .get fun s => .ite (fun _ => ?_) fun _ => ?_
  · exact keeps_comprehension h start (by decide) fun clauses span => .generator span first clauses
  · refine .kind fun _ => .ite (fun _ => ?_) fun _ => Bounded.expect (by decide) fun _ => .pure rfl
    exact keeps_display h start first (by decide) fun elements span => .tuple span elements

/-- What stands after a bracket comes to no bound. -/
theorem keeps_afterBracket (start : Span) :
    Keeps depth (afterBracket expr start) (afterBracket expr' start) := by
  refine .skip? fun _ => .ite (fun _ => .spanFrom fun _ => .pure rfl) fun _ => ?_
  refine (h .default).bind fun first => .get fun s => .ite (fun _ => ?_) fun _ => ?_
  · exact keeps_comprehension h start (by decide) fun clauses span =>
      .listComprehension span first clauses
  · exact keeps_display h start first (by decide) fun elements span => .listDisplay span elements

/-- An entry of a dict takes a token. -/
theorem takes_dictEntry : Takes depth (dictEntry expr) (dictEntry expr') := by
  refine .skip? fun _ => .ite (fun _ => (h .relational).bind fun _ => .pure rfl) fun _ => ?_
  exact (h .default).bind fun key => Bounded.expect (by decide) fun _ => (h .default).bind fun _ =>
    .pure rfl

/-- Further entries of a dict come to no bound. -/
theorem keeps_dictAfter (start : Span) (entries : List (Option Expr × Expr)) :
    Keeps depth (dictAfter expr start entries) (dictAfter expr' start entries) := by
  refine (Bounded.untilClosed (takes_dictEntry h)).bind fun others => ?_
  exact Bounded.expect (by decide) fun _ => .spanFrom fun _ => .pure rfl

/-- What stands after a brace comes to no bound. -/
theorem keeps_afterBrace (start : Span) :
    Keeps depth (afterBrace expr start) (afterBrace expr' start) := by
  refine .skip? fun _ => .ite (fun _ => .spanFrom fun _ => .pure rfl) fun _ => ?_
  refine .kind fun _ => .ite (fun _ => keeps_dictAfter h start []) fun _ => ?_
  refine (h .default).bind fun first => .skip? fun _ => .ite (fun _ => ?_) fun _ => ?_
  · refine (h .default).bind fun value => .get fun s => .ite (fun _ => ?_) fun _ => ?_
    · exact keeps_comprehension h start (by decide) fun clauses span =>
        .dictComprehension span first value clauses
    · exact .skip? fun _ => keeps_dictAfter h start _
  · refine .get fun s => .ite (fun _ => ?_) fun _ => ?_
    · exact keeps_comprehension h start (by decide) fun clauses span =>
        .setComprehension span first clauses
    · exact keeps_display h start first (by decide) fun elements span => .setDisplay span elements

/-! ## Openings -/

omit h in
/-- String literals side by side come to no bound. -/
theorem keeps_strings (first : Token) : Keeps depth (strings first) (strings first) := by
  have hliteral : Bounded depth
      (fun s => (s.kind = .string || s.kind = .formattedString : Bool) = true) (fun _ => 1)
      advance advance := .take fun s hs hkind => by
    rw [hkind] at hs
    cases hs
  refine (Bounded.manyWhile hliteral).bind fun others => .spanFrom fun span => ?_
  exact .ite (fun _ => .pure rfl) fun _ => .pure rfl

/-- What is yielded comes to no bound. -/
theorem keeps_afterYield (start : Span) :
    Keeps depth (afterYield expr start) (afterYield expr' start) := by
  refine .skip? fun _ => .ite (fun _ => ?_) fun _ => .kind fun _ => .ite (fun _ => ?_) fun _ => ?_
  · exact (h .default).bind fun _ => .spanFrom fun _ => .pure rfl
  · exact (takes_exprListOf h .default).bind fun _ => .spanFrom fun _ => .pure rfl
  · exact .spanFrom fun _ => .pure rfl

/-- The token that opens an expression is taken before its parts are read. -/
theorem takes_opened (opening : Opening) : Bounded (depth + 1)
    (fun s => s.kind.opening? = some opening) (fun _ => 1) (opened expr opening)
    (opened expr' opening) := by
  have hoperand (power : BindingPower) (start : Span) (node : Span → Expr → Expr) :
      Keeps depth (do let operand ← expr power; return node (← spanFrom start) operand)
        (do let operand ← expr' power; return node (← spanFrom start) operand) :=
    (h power).bind fun _ => .spanFrom fun _ => .pure rfl
  refine (Bounded.take fun s => TokenKind.ne_endOfFile_of_opening?).bindWithin fun token => ?_
  show Keeps depth _ _
  cases opening with
  | name | number | constant => exact .spanFrom fun _ => .pure rfl
  | string => exact keeps_strings token
  | unary operator => exact hoperand operator.power _ fun span => .unary span operator
  | starred => exact hoperand .relational _ .starred
  | await => exact hoperand .exponent _ .await
  | yield => exact keeps_afterYield h _
  | lambda =>
    refine (keeps_parametersOf h .colon false).bind fun _ => Bounded.expect (by decide) fun _ => ?_
    exact (h .default).bind fun _ => .spanFrom fun _ => .pure rfl
  | parens => exact keeps_afterParen h _
  | brackets => exact keeps_afterBracket h _
  | braces => exact keeps_afterBrace h _

/-! ## Continuations -/

omit h in
/-- An operator that compares comes to no bound. -/
theorem keeps_compareOp : Keeps depth compareOp compareOp := by
  have hrest (operator : CompareOp) : Keeps depth (do let _ ← advance; return operator)
      (do let _ ← advance; return operator) :=
    .advance fun _ => .pure rfl
  have hpure (operator : CompareOp) : Keeps depth
      (pure operator >>= fun operator => do let _ ← advance; return operator)
      (pure operator >>= fun operator => do let _ ← advance; return operator) :=
    .pureBind (hrest _)
  refine .kind fun kind => ?_
  split
  case h_8 =>
    refine .advance fun _ => .kind fun _ => .ite (fun _ => hpure _) fun _ => ?_
    exact .unexpectedFor
  case h_9 => exact .get fun s => .ite (fun _ => .advance fun _ => hpure _) fun _ => hpure _
  case h_10 => exact .unexpected
  all_goals exact hpure _

/-- A comparison takes a token, that of the operand after its operator. -/
theorem takes_link : Takes depth (link expr) (link expr') :=
  keeps_compareOp.bind fun _ => (h .relational).bind fun _ => .pure rfl

/-- An argument takes a token. -/
theorem takes_argument : Takes depth (argument expr) (argument expr') := by
  refine .skip? fun _ => .ite (fun _ => (h .default).bind fun _ => .pure rfl) fun _ => ?_
  refine .kind fun _ => .get fun s => .ite (fun _ => ?_) fun _ => ?_
  · exact .advance fun _ => .advance fun _ => (h .default).bind fun _ => .pure rfl
  · refine (h .default).bind fun value => .get fun s => .ite (fun _ => ?_) fun _ => .pure rfl
    exact (keeps_clausesOf h).bind fun _ => .spanFrom fun _ => .pure rfl

/-- A part of a slice comes to no bound. -/
theorem keeps_sliceBound? : Keeps depth (sliceBound? expr) (sliceBound? expr') :=
  .kind fun _ => .ite (fun _ => .pure rfl) fun _ => (h .default).bind fun _ => .pure rfl

/-- A slice takes a token from its colon on. -/
theorem takes_sliceAfter (lower : Option Expr) :
    Takes depth (sliceAfter expr lower) (sliceAfter expr' lower) := by
  refine Bounded.expect (by decide) fun colon => (keeps_sliceBound? h).bind fun upper => ?_
  have hstep (step : Option Expr) : Keeps depth
      (do return Expr.slice (← spanFrom ((lower.map Expr.span).getD colon.span)) lower upper step)
      (do
        return Expr.slice (← spanFrom ((lower.map Expr.span).getD colon.span)) lower upper step) :=
    .spanFrom fun _ => .pure rfl
  refine .skip? fun _ => .ite (fun _ => (keeps_sliceBound? h).bind hstep) fun _ => ?_
  exact .pureBind (hstep _)

/-- An index takes a token, and a slice its colon. -/
theorem takes_subscriptItem : Takes depth (subscriptItem expr) (subscriptItem expr') := by
  refine .kind fun _ => .ite (fun _ => takes_sliceAfter h none) fun _ => ?_
  refine (h .default).bind fun lower => .kind fun _ => .ite (fun _ => ?_) fun _ => .pure rfl
  exact (takes_sliceAfter h (some lower)).mono (Nat.le_refl _) (fun _ => id) fun _ => Nat.zero_le _

/-- What stands between the brackets of a subscript takes a token. -/
theorem takes_subscriptIndex (start : Span) :
    Takes depth (subscriptIndex expr start) (subscriptIndex expr' start) := by
  refine (takes_subscriptItem h).bind fun first => .kind fun _ => ?_
  refine (Bounded.afterCommas (takes_subscriptItem h)).bind fun others =>
    Bounded.expect (by decide) fun _ => ?_
  exact .ite (fun _ => .pure rfl) fun _ => .spanFrom fun _ => .pure rfl

/-- The token that continues an expression is taken, or an operand after it. -/
theorem takes_continued (left : Expr) (continuation : Continuation) : Bounded depth
    (fun s => s.kind.continuation? = some continuation) (fun _ => 1)
    (continued expr left continuation) (continued expr' left continuation) := by
  have hoperand (power : BindingPower) (node : Span → Expr → Expr) : Bounded depth
      (fun s => s.kind.continuation? = some continuation) (fun _ => 1)
      (do let _ ← advance; let e ← expr power; return node (← spanFrom left.span) e)
      (do let _ ← advance; let e ← expr' power; return node (← spanFrom left.span) e) :=
    .advance fun _ => (h power).bind fun _ => .spanFrom fun _ => .pure rfl
  cases continuation with
  | named =>
    exact .ite (fun _ => hoperand .walrus fun span => .named span left) fun _ => .unexpectedFor
  | conditional =>
    refine .advance fun _ => (h .ternary).bind fun _ => Bounded.expect (by decide) fun _ => ?_
    exact (h .default).bind fun _ => .spanFrom fun _ => .pure rfl
  | boolean operator =>
    exact hoperand operator.power fun span e => .boolean span operator (joined operator left e)
  | comparison =>
    refine (takes_link h).on.bind fun _ => (Bounded.manyWhile (takes_link h).on).bind fun _ => ?_
    exact .spanFrom fun _ => .pure rfl
  | binary operator =>
    cases operator
    all_goals exact hoperand _ fun span => .binary span left _
  | call =>
    refine .advance fun _ => (Bounded.untilClosed (takes_argument h)).bind fun _ => ?_
    exact Bounded.expect (by decide) fun _ => .spanFrom fun _ => .pure rfl
  | subscript =>
    exact .advance fun _ => (takes_subscriptIndex h _).bind fun _ => .spanFrom fun _ => .pure rfl
  | member =>
    exact .advance fun _ => Bounded.expect (by decide) fun _ => .spanFrom fun _ => .pure rfl

/-- An expression takes a token, and needs one level of depth more than its parts. -/
theorem takes_exprOf (power : BindingPower) :
    Takes (depth + 1) (exprOf expr power) (exprOf expr' power) := by
  refine .kindOf fun kind => ?_
  cases hkind : kind.opening? with
  | none => exact .unexpected
  | some opening =>
    have hfirst : Bounded (depth + 1) (fun s => True ∧ s.kind = kind) (fun _ => 1)
        (opened expr opening) (opened expr' opening) := by
      refine (takes_opened h opening).mono (Nat.le_refl _) ?_ fun _ => Nat.le_refl _
      rintro s ⟨-, rfl⟩
      exact hkind
    refine hfirst.bindWithin fun first => .loop (fun left => .kindOf fun kind => ?_) first
    refine .ite (fun _ => ?_) fun _ => .pure rfl
    cases hkind : kind.continuation? with
    | none => exact .unexpected
    | some continuation =>
      refine ((takes_continued h left continuation).mono (Nat.le_refl _) ?_ fun _ =>
        Nat.le_refl _).bind fun _ => .pure rfl
      rintro s ⟨-, rfl⟩
      exact hkind

end Rules

/-- Expressions are read within the bound on the depth where it is not below the number of tokens
that are left, and then another such bound changes nothing. -/
theorem takes_exprWithin {depth i j : Nat} (hi : depth ≤ i) (hj : depth ≤ j) : ∀ power,
    Takes depth (exprWithin i power) (exprWithin j power) := by
  induction depth generalizing i j with
  | zero => exact fun _ _ _ hfuel => absurd hfuel (Nat.not_succ_le_zero _)
  | succ depth ih =>
    obtain ⟨i, rfl⟩ : ∃ k, i = k + 1 := ⟨i - 1, by omega⟩
    obtain ⟨j, rfl⟩ : ∃ k, j = k + 1 := ⟨j - 1, by omega⟩
    exact takes_exprOf (ih (by omega) (by omega))

/-- An expression takes a token, and the depth that is counted in tokens is enough for it. -/
theorem takes_expr {depth : Nat} (power : BindingPower) :
    Takes depth (expr power) (expr power) := by
  intro s hs _ _
  exact (takes_exprWithin (Nat.le_refl _) (Nat.le_refl _) power hs (Nat.le_refl s.fuel)
    trivial).of_eq
    rfl rfl

/-- A tuple without parentheses takes a token. -/
theorem takes_exprList {depth : Nat} (power : BindingPower) :
    Takes depth (exprList power) (exprList power) :=
  takes_exprListOf takes_expr power

end Parse

end NoteCheck.Code
