/-
# Reading statements within the bounds

Every statement that is read takes a token, and so does every clause that is passed over.
-/
import NoteCheck.Proofs.Grammar.BoundedExpr

namespace NoteCheck.Code

/-- The end of the text opens no statement. -/
theorem TokenKind.ne_endOfFile_of_lineForm? {kind : TokenKind} {form : LineForm}
    (h : kind.lineForm? = some form) : kind ≠ .endOfFile := by
  rintro rfl
  cases h

namespace Parse

variable {depth : Nat}

/-! ## Statements on a line of their own -/

/-- The values of an assignment take its mark at least. -/
theorem takes_assigned (first : Expr) : Takes depth (assigned first) (assigned first) := by
  refine .advance fun _ => (takes_exprList .default).bind fun value => .loop (fun found => ?_) _
  refine .skip? fun _ => .ite (fun _ => ?_) fun _ => .pure rfl
  exact (takes_exprList .default).bind fun _ => .pure rfl

/-- What an expression begins comes to no bound. -/
theorem keeps_afterExpr (first : Expr) : Keeps depth (afterExpr first) (afterExpr first) := by
  refine .kind fun kind => ?_
  split
  · exact (takes_assigned first).bind fun _ => .spanFrom fun _ => .pure rfl
  · refine .advance fun _ => (takes_expr .default).bind fun annotation => ?_
    have hrest (value : Option Expr) : Keeps depth
        (do return Stmt.annotatedAssign (← spanFrom first.span) first annotation value)
        (do return Stmt.annotatedAssign (← spanFrom first.span) first annotation value) :=
      .spanFrom fun _ => .pure rfl
    refine .skip? fun _ => .ite (fun _ => ?_) fun _ => ?_
    · exact (Bounded.some (takes_exprList .default)).bind fun value => (hrest value).mono
        (Nat.le_refl _) (fun _ => id) fun _ => Nat.zero_le _
    · exact .pureBind (hrest _)
  · split
    · exact .advance fun _ => (takes_exprList .default).bind fun _ => .spanFrom fun _ => .pure rfl
    · exact .spanFrom fun _ => .pure rfl

/-- Tokens are passed over up to the end of the text or before. -/
theorem keeps_skipUntil {stop : TokenKind → Bool} (hstop : stop .endOfFile = true) :
    Keeps depth (skipUntil stop) (skipUntil stop) := by
  refine .loop (fun _ => .kindOf fun kind => .ite (fun _ => .pure rfl) fun hgo => ?_) ()
  refine .takeOf ?_ fun _ => .pure rfl
  rintro rfl
  exact hgo hstop

/-- A statement on a line of its own takes a token. -/
theorem takes_lineStmt : Takes depth lineStmt lineStmt := by
  refine .kindOf fun kind => ?_
  cases hform : kind.lineForm? with
  | none => exact (takes_exprList .default).on.bind fun first => (keeps_afterExpr first).on
  | some form =>
    have hkind := TokenKind.ne_endOfFile_of_lineForm? hform
    cases form with
    | ret =>
      refine .takeOf hkind fun token => .kind fun _ => ?_
      have hrest (value : Option Expr) : Keeps depth
          (do return Stmt.ret (← spanFrom token.span) value)
          (do return Stmt.ret (← spanFrom token.span) value) :=
        .spanFrom fun _ => .pure rfl
      refine .ite (fun _ => ?_) fun _ => .pureBind (hrest _)
      exact (Bounded.some (takes_exprList .default)).bind hrest
    | skipped form =>
      refine .takeOf hkind fun token => (keeps_skipUntil rfl).bind fun _ => ?_
      exact .spanFrom fun _ => .pure rfl

/-- The end of a line comes to no bound, even at the end of the text. -/
theorem keeps_endLine : Keeps depth endLine endLine := by
  refine .skip? fun semicolon => .kind fun kind => ?_
  split
  · exact .advance fun _ => .pure rfl
  · exact .pure rfl
  · exact .pure rfl
  · exact .ite (fun _ => .pure rfl) fun _ => .unexpected

/-- A line takes a token. -/
theorem takes_line : Takes depth line line := by
  refine .loop (fun found => takes_lineStmt.bind fun next => keeps_endLine.bind fun done => ?_) []
  exact .ite (fun _ => .pure rfl) fun _ => .pure rfl

/-! ## Passing over statements with blocks -/

/-- Passing over a head takes its colon at least. -/
theorem takes_skipHead : Takes depth skipHead skipHead := by
  refine .loop (fun depth => .kindOf fun kind => ?_) 0
  split
  · exact .unexpected
  · exact .unexpected
  · rename_i hend _
    exact .takeOf hend fun _ => .ite (fun _ => .pure rfl) fun _ => .pure rfl

/-- Passing over a block comes to no bound, for every round takes a token. -/
theorem keeps_skipBlock : Keeps depth skipBlock skipBlock := by
  refine .loop (fun depth => .kindOf fun kind => .ite (fun _ => .unexpected) fun hend => ?_) 0
  refine .takeOf hend fun _ => ?_
  split
  all_goals exact .pure rfl

/-- Passing over a clause takes a token. -/
theorem takes_skipClause : Takes depth skipClause skipClause := by
  refine takes_skipHead.bind fun _ => .skip? fun _ => .ite (fun _ => ?_) fun _ => ?_
  · exact Bounded.expect (by decide) fun _ => keeps_skipBlock
  · exact (keeps_skipUntil rfl).bind fun _ => .skip? fun _ => .pure rfl

/-- Passing over clauses takes a token, that of the first one. -/
theorem takes_skipClauses : Takes depth skipClauses skipClauses := by
  refine takes_skipClause.bind fun _ => .loop (fun _ => .kind fun _ => ?_) ()
  exact .ite (fun _ => takes_skipClause.bind fun _ => .pure rfl) fun _ => .pure rfl

/-- A statement that is passed over takes a token. -/
theorem takes_skipped (start : Span) (form : SkippedForm) :
    Takes depth (skipped start form) (skipped start form) :=
  takes_skipClauses.bind fun _ => .spanFrom fun _ => .pure rfl

/-! ## Statements with blocks -/

section Rules

variable {stmt stmt' : Parse Stmt} (h : Takes depth stmt stmt')

include h

/-- The part after the head of a statement takes a token. -/
theorem takes_suiteOf : Takes depth (suiteOf stmt) (suiteOf stmt') := by
  refine Bounded.expect (by decide) fun _ => .skip? fun _ => .ite (fun _ => ?_) fun _ => ?_
  · refine Bounded.expect (by decide) fun _ => (Bounded.manyWhile h.on).bind fun _ => ?_
    exact Bounded.expect (by decide) fun _ => .pure rfl
  · exact takes_line.mono (Nat.le_refl _) (fun _ => id) fun _ => Nat.zero_le _

/-- The first word of a function is taken before its body is read. -/
theorem takes_function (start : Span) (decorators : List Expr) (isAsync : Bool) :
    Takes (depth + 1) (function stmt start decorators isAsync)
      (function stmt' start decorators isAsync) := by
  refine (Bounded.takes_expect (by decide)).bindWithin fun _ => ?_
  show Keeps depth _ _
  refine Bounded.expect (by decide) fun name => Bounded.expect (by decide) fun _ => ?_
  refine (keeps_parametersOf takes_expr .closeParen true).bind fun ps =>
    Bounded.expect (by decide) fun _ => ?_
  have hrest (returns : Option Expr) : Keeps depth
      (do
        let body ← suiteOf stmt
        return Stmt.function (← spanFrom start) name.text ps returns decorators isAsync body)
      (do
        let body ← suiteOf stmt'
        return Stmt.function (← spanFrom start) name.text ps returns decorators isAsync body) :=
    (takes_suiteOf h).bind fun _ => .spanFrom fun _ => .pure rfl
  refine .skip? fun _ => .ite (fun _ => ?_) fun _ => .pureBind (hrest _)
  exact (Bounded.some (takes_expr .default)).bind hrest

omit h in
/-- A decorator takes its first mark at least. -/
theorem takes_decorator : Takes depth decorator decorator :=
  Bounded.expect (by decide) fun _ => (takes_expr .default).bind fun _ =>
    Bounded.expect (by decide) fun _ => .pure rfl

/-- What decorators belong to takes a token. -/
theorem takes_decorated (start : Span) :
    Takes (depth + 1) (decorated stmt start) (decorated stmt' start) := by
  refine (Bounded.manyWhile takes_decorator.on).bind fun decorators => .kind fun kind => ?_
  split
  · exact takes_function h start decorators false
  · exact .advance fun _ => takes_function h start decorators true
  · exact takes_skipped start .classDefinition
  · exact .unexpectedFor

/-- A statement after `async` takes a token. -/
theorem takes_async (start : Span) : Takes (depth + 1) (async stmt start) (async stmt' start) := by
  refine .advance fun _ => .kind fun kind => ?_
  split
  · exact takes_function h start [] true
  · exact takes_skipped start .asyncForLoop
  · exact takes_skipped start .asyncWithBlock
  · exact .unexpected

/-- A condition and what it guards take a token. -/
theorem takes_guarded : Takes (depth + 1) (guarded stmt) (guarded stmt') := by
  refine .advance fun token => (takes_expr .default).bindWithin fun test => ?_
  show Keeps depth _ _
  exact (takes_suiteOf h).bind fun _ => .pure rfl

/-- A chain of conditions takes a token. -/
theorem takes_branch : Takes (depth + 1) (branch stmt) (branch stmt') := by
  refine (takes_guarded h).bindWithin fun first => ?_
  show Keeps depth _ _
  refine (Bounded.manyWhile ((takes_guarded h).within (Nat.le_succ _)).on).bind fun others => ?_
  have hrest (orelse : List Stmt) : Keeps depth
      (do return chained (← get).last orelse first others)
      (do return chained (← get).last orelse first others) :=
    .get fun s => .pure rfl
  refine .skip? fun _ => .ite (fun _ => ?_) fun _ => .pureBind (hrest _)
  exact (takes_suiteOf h).bind hrest

/-- A statement takes a token, and needs one level of depth more than the statements inside. -/
theorem takes_stmtOf : Takes (depth + 1) (stmtOf stmt) (stmtOf stmt') := by
  refine .get fun s => .kind fun kind => ?_
  split
  · exact takes_function h _ [] false
  · exact takes_decorated h _
  · exact takes_async h _
  · exact takes_branch h
  · exact takes_skipped _ _
  · exact takes_lineStmt.bind fun _ => keeps_endLine.bind fun _ => .pure rfl

end Rules

/-- Statements are read within the bound on the depth where it is not below the number of tokens
that are left, and then another such bound changes nothing. -/
theorem takes_stmtWithin {i j : Nat} (hi : depth ≤ i) (hj : depth ≤ j) :
    Takes depth (stmtWithin i) (stmtWithin j) := by
  induction depth generalizing i j with
  | zero => exact fun _ _ hfuel => absurd hfuel (Nat.not_succ_le_zero _)
  | succ depth ih =>
    obtain ⟨i, rfl⟩ : ∃ k, i = k + 1 := ⟨i - 1, by omega⟩
    obtain ⟨j, rfl⟩ : ∃ k, j = k + 1 := ⟨j - 1, by omega⟩
    exact takes_stmtOf (ih (by omega) (by omega))

/-- A statement is read with the depth that is counted in tokens. -/
theorem stmt_eq {s : TokenStream} : stmt s = stmtWithin s.fuel s := get_bind

/-- A statement takes a token, and the depth that is counted in tokens is enough for it. -/
theorem takes_stmt : Takes depth stmt stmt := by
  intro s hs _ _
  exact (takes_stmtWithin (Nat.le_refl _) (Nat.le_refl _) hs (Nat.le_refl s.fuel) trivial).of_eq
    stmt_eq
    stmt_eq

/-- All statements up to the end of the text come to no bound. -/
theorem keeps_block : Keeps depth block block := .manyWhile takes_stmt.on

end Parse

open Parse

/-- Reading tokens that end with the end of the text is reading statements, which comes to no
bound. -/
theorem parseTokens_eq_iff {first : Token} {others : List Token}
    {r : Except SyntaxError (List Stmt)} (hclosed : (TokenStream.ofTokens first others).Closed) :
    parseTokens (first :: others) = r ↔
      (block (.ofTokens first others)).map Prod.fst = r.mapError .fault := by
  have hends := (keeps_block hclosed (Nat.le_refl _) trivial).ends
  have hrun : block.run (.ofTokens first others) = block (.ofTokens first others) := rfl
  rw [parseTokens, hrun]
  rcases hread : block (.ofTokens first others) with (e | _) | ⟨body, t⟩
  · cases r <;> simp [Except.map, Except.mapError]
  · exact absurd hread hends
  · cases r <;> simp [Except.map, Except.mapError]

end NoteCheck.Code
