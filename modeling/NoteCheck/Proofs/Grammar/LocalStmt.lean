/-
# Reading statements with one token of lookahead

Statements are read with one token in sight beyond the place that has been come to. The main
statement, `parseTokens_eq_error_of_prefix`: an error stands where a token begins, and the tokens up
to that one and the one after it are enough for the error.
-/
import NoteCheck.Proofs.Grammar.BoundedStmt
import NoteCheck.Proofs.Grammar.LocalExpr

namespace NoteCheck.Code

open TokenStream

namespace Parse

/-! ## Statements on a line of their own -/

/-- The values of an assignment are read locally. -/
theorem local_assigned (first : Expr) : Near (assigned first) (assigned first) := by
  refine .advance fun _ => (local_exprList .default).bind fun value => .loop (fun found => ?_) _
  refine .skip? fun _ => .ite (fun _ => ?_) fun _ => .pure
  exact (local_exprList .default).bind fun _ => .pure

/-- What an expression begins is seen by the token after it. -/
theorem local_afterExpr (first : Expr) : Near (afterExpr first) (afterExpr first) := by
  refine .kind fun kind => ?_
  split
  · exact (local_assigned first).bind fun _ => .spanFrom fun _ => .pure
  · refine .advance fun _ => (local_expr .default).bind fun annotation => ?_
    have hrest (value : Option Expr) : Near
        (do return Stmt.annotatedAssign (← spanFrom first.span) first annotation value)
        (do return Stmt.annotatedAssign (← spanFrom first.span) first annotation value) :=
      .spanFrom fun _ => .pure
    refine .skip? fun _ => .ite (fun _ => ?_) fun _ => .pureBind (hrest _)
    exact (Local.some (local_exprList .default)).bind hrest
  · split
    · exact .advance fun _ => (local_exprList .default).bind fun _ => .spanFrom fun _ => .pure
    · exact .spanFrom fun _ => .pure

/-- What is passed over up to a token is seen by it. -/
theorem local_skipUntil (stop : TokenKind → Bool) : Near (skipUntil stop) (skipUntil stop) := by
  refine .loop (fun _ => .kind fun kind => .ite (fun _ => .pure) fun _ => ?_) ()
  exact .advance fun _ => .pure

/-- A statement on a line of its own is read locally. -/
theorem local_lineStmt : Near lineStmt lineStmt := by
  refine .kind fun kind => ?_
  cases kind.lineForm? with
  | none => exact (local_exprList .default).bind local_afterExpr
  | some form =>
    cases form with
    | ret =>
      refine .advance fun token => .kind fun _ => ?_
      have hrest (value : Option Expr) : Near
          (do return Stmt.ret (← spanFrom token.span) value)
          (do return Stmt.ret (← spanFrom token.span) value) :=
        .spanFrom fun _ => .pure
      refine .ite (fun _ => ?_) fun _ => .pureBind (hrest _)
      exact (Local.some (local_exprList .default)).bind hrest
    | skipped form =>
      exact .advance fun token => (local_skipUntil _).bind fun _ => .spanFrom fun _ => .pure

/-- The end of a line is seen by the token that ends it and the one after it. -/
theorem local_endLine : Near endLine endLine := by
  refine .skip? fun semicolon => .kind fun kind => ?_
  split
  · exact .advance fun _ => .pure
  · exact .pure
  · exact .pure
  · exact .ite (fun _ => .pure) fun _ => .unexpected

/-- The statements of a line are read locally. -/
theorem local_line : Near line line := by
  refine .loop (fun found => local_lineStmt.bind fun next => local_endLine.bind fun done => ?_) []
  exact .ite (fun _ => .pure) fun _ => .pure

/-! ## Passing over statements with blocks -/

/-- The head of a clause is passed over locally. -/
theorem local_skipHead : Near skipHead skipHead := by
  refine .loop (fun depth => .kind fun kind => ?_) 0
  split
  · exact .unexpected
  · exact .unexpected
  · exact .advance fun _ => .ite (fun _ => .pure) fun _ => .pure

/-- A block is passed over locally, for the marks of layout say where it ends. -/
theorem local_skipBlock : Near skipBlock skipBlock := by
  refine .loop (fun depth => .kind fun kind => .ite (fun _ => .unexpected) fun _ => ?_) 0
  refine .advance fun _ => ?_
  split
  all_goals exact .pure

/-- A clause is passed over locally. -/
theorem local_skipClause : Near skipClause skipClause := by
  refine local_skipHead.bind fun _ => .skip? fun _ => .ite (fun _ => ?_) fun _ => ?_
  · exact Local.expect fun _ => local_skipBlock
  · exact (local_skipUntil _).bind fun _ => .skip? fun _ => .pure

/-- Whether a statement goes on with a further clause is seen by its first word. -/
theorem local_skipClauses : Near skipClauses skipClauses := by
  refine local_skipClause.bind fun _ => .loop (fun _ => .kind fun _ => ?_) ()
  exact .ite (fun _ => local_skipClause.bind fun _ => .pure) fun _ => .pure

/-- A statement with a block is passed over locally. -/
theorem local_skipped (start : Span) (form : SkippedForm) :
    Near (skipped start form) (skipped start form) :=
  local_skipClauses.bind fun _ => .spanFrom fun _ => .pure

/-! ## Statements with blocks -/

/-- A decorator is read locally. -/
theorem local_decorator : Near decorator decorator :=
  Local.expect fun _ => (local_expr .default).bind fun _ => Local.expect fun _ => .pure

section Rules

variable {stmt stmt' : Parse Stmt} (h : Near stmt stmt')

include h

/-- The part after the head of a statement is read locally. -/
theorem local_suiteOf : Near (suiteOf stmt) (suiteOf stmt') := by
  refine Local.expect fun _ => .skip? fun _ => .ite (fun _ => ?_) fun _ => local_line
  refine Local.expect fun _ => (Local.manyWhile
    (looks_kind.map fun kind => kind != .dedent && kind != .endOfFile) h).bind fun _ => ?_
  exact Local.expect fun _ => .pure

/-- A function is read locally when its body is. -/
theorem local_function (start : Span) (decorators : List Expr) (isAsync : Bool) :
    Near (function stmt start decorators isAsync) (function stmt' start decorators isAsync) := by
  refine Local.expect fun _ => Local.expect fun name => Local.expect fun _ => ?_
  refine (local_parametersOf local_expr .closeParen true).bind fun ps => Local.expect fun _ => ?_
  have hrest (returns : Option Expr) : Near
      (do
        let body ← suiteOf stmt
        return Stmt.function (← spanFrom start) name.text ps returns decorators isAsync body)
      (do
        let body ← suiteOf stmt'
        return Stmt.function (← spanFrom start) name.text ps returns decorators isAsync body) :=
    (local_suiteOf h).bind fun _ => .spanFrom fun _ => .pure
  refine .skip? fun _ => .ite (fun _ => ?_) fun _ => .pureBind (hrest _)
  exact (Local.some (local_expr .default)).bind hrest

/-- What decorators belong to is read locally. -/
theorem local_decorated (start : Span) : Near (decorated stmt start) (decorated stmt' start) := by
  refine (Local.manyWhile (looks_kind.map fun kind => decide (kind = .atSign))
    local_decorator).bind fun decorators => .kind fun kind => ?_
  split
  · exact local_function h start decorators false
  · exact .advance fun _ => local_function h start decorators true
  · exact local_skipped start .classDefinition
  · exact .unexpectedFor

/-- What follows `async` is seen by the word after it. -/
theorem local_async (start : Span) : Near (async stmt start) (async stmt' start) := by
  refine .advance fun _ => .kind fun kind => ?_
  split
  · exact local_function h start [] true
  · exact local_skipped start .asyncForLoop
  · exact local_skipped start .asyncWithBlock
  · exact .unexpected

/-- A condition and what it guards are read locally. -/
theorem local_guarded : Near (guarded stmt) (guarded stmt') :=
  .advance fun _ => (local_expr .default).bind fun _ => (local_suiteOf h).bind fun _ => .pure

/-- Whether a chain of conditions goes on is seen by the word after a block. -/
theorem local_branch : Near (branch stmt) (branch stmt') := by
  refine (local_guarded h).bind fun first => ?_
  refine (Local.manyWhile (looks_kind.map fun kind => decide (kind = .kwElif))
    (local_guarded h)).bind fun others => ?_
  have hrest (orelse : List Stmt) : Near
      (do return chained (← get).last orelse first others)
      (do return chained (← get).last orelse first others) :=
    .get (fun _ _ _ _ _ hshares _ => by simp only [hshares.last]) fun _ => .pure
  refine .skip? fun _ => .ite (fun _ => ?_) fun _ => .pureBind (hrest _)
  exact (local_suiteOf h).bind hrest

/-- With a local way to read statements inside, a statement is read locally. -/
theorem local_stmtOf : Near (stmtOf stmt) (stmtOf stmt') := by
  refine .get (fun s hs hPs rest s' hshares hbefore => ?_) fun s => .kind fun kind => .on ?_
  · simp only [hshares.current_eq hbefore]
  split
  · exact local_function h _ [] false
  · exact local_decorated h _
  · exact local_async h _
  · exact local_branch h
  · exact local_skipped _ _
  · exact local_lineStmt.bind fun _ => local_endLine.bind fun _ => .pure

end Rules

/-- Statements are read with one token in sight, whatever the bounds on the depth. -/
theorem local_stmtWithin (i j : Nat) : Near (stmtWithin i) (stmtWithin j) := by
  induction i generalizing j with
  | zero => exact .exhausted
  | succ i ih =>
    have hstep (j : Nat) : Near (stmtWithin (i + 1)) (stmtWithin (j + 1)) := local_stmtOf (ih j)
    cases j with
    | zero => exact (hstep 0).halted
    | succ j => exact hstep j

/-- All statements up to the end of the text are read locally. -/
theorem local_block : Near block block :=
  .manyWhile (looks_kind.map fun kind => kind != .endOfFile) (.fuel local_stmtWithin)

end Parse

/-! ## Errors -/

open Parse

/-- Reading tokens fails exactly when reading their statements does, for no bound is come to. -/
theorem block_eq_error_iff {first : Token} {ahead : List Token} {e : SyntaxError}
    (hclosed : (ofTokens first ahead).Closed) :
    parseTokens (first :: ahead) = .error e ↔ block (ofTokens first ahead) = .error (.fault e) := by
  rw [parseTokens_eq_iff hclosed]
  rcases block (ofTokens first ahead) with e' | ⟨body, t⟩
  · simp [Except.map, Except.mapError]
  · simp [Except.map, Except.mapError]

/-- An error stands where a token begins, and depends on the tokens up to that one and on the one
after it only. -/
theorem parseTokens_eq_error_of_prefix {tokens : List Token} {e : SyntaxError}
    (hends : ∀ t ∈ tokens.getLast?, t.kind = .endOfFile) (h : parseTokens tokens = .error e) :
    ∃ k, ∃ hk : k < tokens.length, e.position = tokens[k].span.start ∧
      ∀ others, (∀ t ∈ others.getLast?, t.kind = .endOfFile) → tokens.take (k + 2) <+: others →
        parseTokens others = .error e := by
  cases tokens with
  | nil => cases h
  | cons first ahead =>
    have hclosed : (ofTokens first ahead).Closed := hends
    have hblock := (block_eq_error_iff hclosed).1 h
    obtain hhalt | ⟨t, ⟨before, hbefore⟩, hposition, hcoincides⟩ := local_block hclosed trivial
    · rw [hblock] at hhalt
      cases hhalt
    rw [hblock] at hposition hcoincides
    have htokens : first :: ahead = before ++ t.current :: t.ahead := hbefore.symm
    refine ⟨before.length, by simp [htokens], ?_, fun others hothers hstarts => ?_⟩
    · cases hposition with
      | fault hposition => simpa [htokens] using hposition
    · obtain ⟨more, rfl⟩ := hstarts
      -- the two streams share the tokens up to the one after that at which reading fails
      have hshares : Shares (t.tokens.drop 2) (ofTokens first ahead)
          (ofTokens first (ahead.take (before.length + 1) ++ more)) := by
        refine ⟨rfl, (first :: ahead).take (before.length + 2), ?_, more, rfl⟩
        have hdrop : t.tokens.drop 2 = (first :: ahead).drop (before.length + 2) := by
          rw [htokens, ← List.drop_drop, List.drop_left]
          rfl
        rw [hdrop, List.take_append_drop]
        rfl
      have hsame := hcoincides _ _ hshares (List.suffix_refl _)
      have hclosed' : (ofTokens first (ahead.take (before.length + 1) ++ more)).Closed := hothers
      have hends' := (keeps_block hclosed' (Nat.le_refl _) trivial).ends
      refine (block_eq_error_iff hclosed').2 ?_
      generalize block (ofTokens first (ahead.take (before.length + 1) ++ more)) = r at hsame hends'
      cases hsame with
      | fault => rfl
      | exhausted => exact absurd rfl hends'

/-- A name where a line should end. -/
theorem parseTokens_eq_error_of_prefix_names :
    let tokens : List Token := [⟨.identifier, "x", ⟨⟨1, 1⟩, ⟨1, 2⟩⟩⟩,
      ⟨.identifier, "y", ⟨⟨1, 3⟩, ⟨1, 4⟩⟩⟩, ⟨.newline, "", ⟨⟨1, 4⟩, ⟨2, 1⟩⟩⟩,
      ⟨.endOfFile, "", ⟨⟨2, 1⟩, ⟨2, 1⟩⟩⟩]
    let e : SyntaxError := ⟨.unexpected "y", ⟨1, 3⟩⟩
    parseTokens tokens = .error e ∧
      ∃ k, ∃ hk : k < tokens.length, e.position = tokens[k].span.start ∧
        ∀ others, (∀ t ∈ others.getLast?, t.kind = .endOfFile) → tokens.take (k + 2) <+: others →
          parseTokens others = .error e :=
  ⟨rfl, parseTokens_eq_error_of_prefix (by simp) rfl⟩

end NoteCheck.Code
