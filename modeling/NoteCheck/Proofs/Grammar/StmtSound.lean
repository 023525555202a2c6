/-
# Statements are read by the rules

What the reader of statements reads follows the rules of the grammar, and so all that `parse`
returns does.
-/
import NoteCheck.Proofs.Grammar.ExprSound
import NoteCheck.Proofs.Grammar.StmtRules
import NoteCheck.Proofs.Results

namespace NoteCheck.Code

/-- The word `return` is the only one that opens a return statement. -/
theorem TokenKind.eq_kwReturn_of_lineForm? {kind : TokenKind} (h : kind.lineForm? = some .ret) :
    kind = .kwReturn := by
  unfold TokenKind.lineForm? at h
  split at h
  all_goals first | rfl | cases h

/-- The tokens that open a statement that is read in full. -/
theorem TokenKind.blockForm?_cases {kind : TokenKind} {form : BlockForm}
    (h : kind.blockForm? = some form) :
    match form with
    | .function => kind = .kwDef
    | .decorated => kind = .atSign
    | .async => kind = .kwAsync
    | .branch => kind = .kwIf
    | .skipped _ => True := by
  unfold TokenKind.blockForm? at h
  split at h
  all_goals cases h
  all_goals first | rfl | trivial

namespace Parse

/-- A reader keeps to the rules of a phrase of statements whenever it succeeds. -/
def ReadsStmtAs {α : Type} (p : Parse α) (phrase : α → Phrase StmtPart) : Prop :=
  ∀ {s a t}, p s = .ok (a, t) → ReadsStmt s (phrase a) t

/-- Statements follow the grammar when each of them does. -/
theorem manyWhile_readsStmtAs {α : Type} {part : α → StmtPart} {item : Parse α}
    {more : TokenStream → Bool}
    (hitem : ∀ {s a t}, more s = true → item s = .ok (a, t) → ReadsStmt s (.one (part a)) t) :
    ReadsStmtAs (manyWhile more item) (fun found => .many more (found.map part)) := by
  intro s found t h
  refine manyWhile_induction (P := fun s found t => ReadsStmt s (.many more (found.map part)) t)
    ?_ ?_ h
  · intro s hmore
    exact .manyDone hmore
  · intro s a t found u hmore ha hfound
    exact .manyNext hmore (hitem hmore ha) hfound

/-! ## Statements on a line of their own -/

/-- The targets and the value that are read after the first target. -/
theorem assigned_reads {s t : TokenStream} {first last : Expr} {all : List Expr}
    (h : assigned first s = .ok ((all, last), t)) :
    ∃ value u, ReadsExpr s.tail (.one (.exprList .default value)) u ∧
      ReadsStmt u (.one (.targets [first] value all last)) t := by
  rw [assigned, advance_bind] at h
  obtain ⟨value, u, hvalue, h⟩ := bind_eq_ok.1 h
  refine ⟨value, u, exprList_readsAs .default hvalue, ?_⟩
  refine loop_induction
    (P := fun a s b t => ReadsStmt s (.one (.targets a.1 a.2 b.1 b.2)) t) ?_ ?_ h
  · intro ⟨targets, value⟩ s ⟨all, last⟩ t h
    simp at h
    obtain ⟨hassign, ⟨rfl, rfl⟩, rfl⟩ := h
    exact .targetsEnd hassign
  · intro ⟨targets, value⟩ s a' t b u h htargets
    simp at h
    obtain ⟨hassign, next, hnext, rfl⟩ := h
    exact .targetsNext hassign (exprList_readsAs .default hnext) htargets

/-- What an expression begins follows the grammar. -/
theorem afterExpr_readsStmtAs (first : Expr) :
    ReadsStmtAs (afterExpr first) (.one ∘ .afterExpr first) := by
  intro s st t h
  rw [afterExpr] at h
  simp only [kind_bind] at h
  generalize hkind : s.kind = kind at h
  split at h
  · simp at h
    obtain ⟨all, last, h, rfl⟩ := h
    obtain ⟨value, u, hvalue, htargets⟩ := assigned_reads h
    exact .assign hkind hvalue htargets
  · simp at h
    obtain ⟨type, u, htype, ⟨hassign, value, hvalue, rfl⟩ | ⟨hassign, rfl, rfl⟩⟩ := h
    · exact .annotatedAssign hkind (expr_readsAs .default htype) hassign
        (exprList_readsAs .default hvalue)
    · exact .annotated hkind (expr_readsAs .default htype) hassign
  · rename_i hassign hcolon
    cases hop : kind.augmentedOp? with
    | some op =>
      simp [hop] at h
      obtain ⟨value, hvalue, rfl⟩ := h
      exact .augmentedAssign (by rw [hkind, hop]) (exprList_readsAs .default hvalue)
    | none =>
      simp [hop] at h
      obtain ⟨rfl, rfl⟩ := h
      exact .expression (by rwa [hkind]) (by rwa [hkind]) (by rw [hkind, hop])

/-- A statement on a line of its own follows the grammar. -/
theorem lineStmt_readsStmtAs : ReadsStmtAs lineStmt (.one ∘ .line) := by
  intro s st t h
  rw [lineStmt, kind_bind] at h
  generalize hform : s.kind.lineForm? = form at h
  split at h
  · have hkind := TokenKind.eq_kwReturn_of_lineForm? hform
    simp at h
    obtain ⟨hopens, e, he, rfl⟩ | ⟨hopens, rfl, rfl⟩ := h
    · exact .retValue hkind hopens (exprList_readsAs .default he)
    · exact .ret hkind (by rw [hopens]; decide)
  · simp at h
    obtain ⟨⟨⟨⟩, h⟩, rfl⟩ := h
    exact .skippedLine hform h
  · obtain ⟨first, u, hfirst, h⟩ := bind_eq_ok.1 h
    exact .exprLine hform (exprList_readsAs .default hfirst) (afterExpr_readsStmtAs first h)

/-- The end of a line follows the grammar. -/
theorem endLine_readsStmtAs : ReadsStmtAs endLine (.one ∘ .lineEnd) := by
  intro s isPassedOver t h
  simp [endLine] at h
  -- with a semicolon or without one the end is found at the token that follows
  obtain ⟨hsemicolon, h⟩ | ⟨hsemicolon, h⟩ := h
  · have hskip := TokenStream.skip_of_eq hsemicolon
    generalize hkind : s.tail.kind = kind at h
    split at h
    · simp at h
      obtain ⟨rfl, rfl⟩ := h
      rw [← hskip] at hkind ⊢
      exact .newlineEnd hkind
    · obtain ⟨rfl, rfl⟩ := pure_eq_ok.1 h
      rw [← hskip] at hkind ⊢
      exact .blockEnd (.inl hkind)
    · obtain ⟨rfl, rfl⟩ := pure_eq_ok.1 h
      rw [← hskip] at hkind ⊢
      exact .blockEnd (.inr hkind)
    · rename_i hnewline heof hdedent
      obtain ⟨rfl, rfl⟩ := pure_eq_ok.1 h
      exact .semicolonEnd hsemicolon (by rwa [hkind]) (by rwa [hkind]) (by rwa [hkind])
  · have hskip := TokenStream.skip_of_ne hsemicolon
    generalize hkind : s.kind = kind at h
    split at h
    · simp at h
      obtain ⟨rfl, rfl⟩ := h
      have h := ReadsStmt.newlineEnd (s := s) (by rwa [hskip])
      rwa [hskip] at h
    · obtain ⟨rfl, rfl⟩ := pure_eq_ok.1 h
      have h := ReadsStmt.blockEnd (s := s) (.inl (by rwa [hskip]))
      rwa [hskip] at h
    · obtain ⟨rfl, rfl⟩ := pure_eq_ok.1 h
      have h := ReadsStmt.blockEnd (s := s) (.inr (by rwa [hskip]))
      rwa [hskip] at h
    · exact absurd h unexpected_ne_ok

/-- The statements of a line follow the grammar. -/
theorem line_readsStmtAs : ReadsStmtAs line (.one ∘ .lineOf) := by
  intro s body t h
  obtain ⟨_, rfl, hbody⟩ := exists_append_of_loop
    (P := fun s body t => ReadsStmt s (.one (.lineOf body)) t) (by
      intro found s r t h
      simp at h
      obtain ⟨st, u, hst, ⟨hend, rfl⟩ | ⟨hend, rfl⟩⟩ := h
      · exact .inr ⟨st, rfl, fun hothers => .lineNext (lineStmt_readsStmtAs hst)
          (endLine_readsStmtAs hend) hothers⟩
      · exact .inl ⟨[st], rfl, .lineLast (lineStmt_readsStmtAs hst) (endLine_readsStmtAs hend)⟩) h
  exact hbody

/-! ## Statements with blocks -/

/-- A statement whose contents are passed over keeps its form and its place. -/
theorem skipped_eq_ok {start : Span} {form : SkippedForm} {s t : TokenStream} {st : Stmt}
    (h : skipped start form s = .ok (st, t)) :
    skipClauses s = .ok ((), t) ∧ .skipped (start.through t.last) form = st := by
  obtain ⟨⟨⟩, u, hskip, h⟩ := bind_eq_ok.1 h
  rw [spanFrom_bind, pure_eq_ok] at h
  obtain ⟨hst, rfl⟩ := h
  exact ⟨hskip, hst⟩

/-- A decorator follows the grammar. -/
theorem decorator_readsStmtAs : ReadsStmtAs decorator (.one ∘ .decorator) := by
  intro s e t h
  simp [decorator] at h
  obtain ⟨hat, u, he, hnewline, rfl⟩ := h
  exact .decorator hat (expr_readsAs .default he) hnewline

section Rules

variable {stmt : Parse Stmt} (hstmt : ReadsStmtAs stmt (.one ∘ .stmt))
include hstmt

/-- The part after the head of a statement follows the grammar. -/
theorem suiteOf_readsStmtAs : ReadsStmtAs (suiteOf stmt) (.one ∘ .suite) := by
  intro s body t h
  simp [suiteOf] at h
  obtain ⟨hcolon, ⟨hnewline, hindent, u, hbody, hdedent, rfl⟩ | ⟨hnewline, h⟩⟩ := h
  · exact .block hcolon hnewline hindent (manyWhile_readsStmtAs (fun _ h => hstmt h) hbody) hdedent
  · exact .inline hcolon hnewline (line_readsStmtAs h)

/-- A function follows the grammar. -/
theorem function_readsStmtAs (start : Span) (decorators : List Expr) (isAsync : Bool) :
    ReadsStmtAs (function stmt start decorators isAsync)
      (.one ∘ .function start decorators isAsync) := by
  intro s st t h
  simp [function] at h
  obtain ⟨hdef, hname, hopen, ps, u, hps, hclose, h⟩ := h
  have hps := parameters_readsAs .closeParen true hps
  obtain ⟨harrow, e, v, he, body, hbody, rfl⟩ | ⟨harrow, body, hbody, rfl⟩ := h
  · have hreturns := expr_readsAs .default he
    exact .function hdef hname hopen hps hclose (.after (by decide) harrow hreturns)
      (suiteOf_readsStmtAs hstmt hbody)
  · exact .function hdef hname hopen hps hclose (.afterNothing harrow)
      (suiteOf_readsStmtAs hstmt hbody)

/-- A statement with decorators. -/
theorem decorated_reads {s t : TokenStream} {st : Stmt} (hkind : s.kind = .atSign)
    (h : decorated stmt s.current.span s = .ok (st, t)) : ReadsStmt s (.one (.stmt st)) t := by
  simp only [decorated, bind_eq_ok, kind_bind] at h
  obtain ⟨decorators, u, hdecorators, h⟩ := h
  have hdecorators := manyWhile_readsStmtAs (fun _ h => decorator_readsStmtAs h) hdecorators
  generalize hkind' : u.kind = kind at h
  split at h
  · exact .decorated hkind hdecorators (function_readsStmtAs hstmt _ _ _ h)
  · rw [advance_bind] at h
    exact .decoratedAsync hkind hdecorators hkind' (function_readsStmtAs hstmt _ _ _ h)
  · obtain ⟨hskip, rfl⟩ := skipped_eq_ok h
    exact .decoratedClass hkind hdecorators hkind' hskip
  · exact absurd h unexpectedFor_ne_ok

/-- A statement after `async`. -/
theorem async_reads {s t : TokenStream} {st : Stmt} (hkind : s.kind = .kwAsync)
    (h : async stmt s.current.span s = .ok (st, t)) : ReadsStmt s (.one (.stmt st)) t := by
  rw [async, advance_bind, kind_bind] at h
  generalize hkind' : s.tail.kind = kind at h
  split at h
  · exact .asyncFunction hkind (function_readsStmtAs hstmt _ _ _ h)
  · obtain ⟨hskip, rfl⟩ := skipped_eq_ok h
    exact .asyncFor hkind hkind' hskip
  · obtain ⟨hskip, rfl⟩ := skipped_eq_ok h
    exact .asyncWith hkind hkind' hskip
  · exact absurd h unexpected_ne_ok

/-- A condition and what it guards follow the grammar. -/
theorem guarded_reads {s t : TokenStream} {g : Guarded} (hkind : s.kind = .kwIf ∨ s.kind = .kwElif)
    (h : guarded stmt s = .ok (g, t)) : ReadsStmt s (.one (.guarded g)) t := by
  simp [guarded] at h
  obtain ⟨test, u, htest, body, hbody, rfl⟩ := h
  exact .guarded hkind (expr_readsAs .default htest) (suiteOf_readsStmtAs hstmt hbody)

/-- A chain of conditions. -/
theorem branch_reads {s t : TokenStream} {st : Stmt} (hkind : s.kind = .kwIf)
    (h : branch stmt s = .ok (st, t)) : ReadsStmt s (.one (.stmt st)) t := by
  simp [branch] at h
  obtain ⟨first, u, hfirst, others, v, hothers, h⟩ := h
  have hfirst := guarded_reads hstmt (.inl hkind) hfirst
  have hothers := manyWhile_readsStmtAs
    (fun helif h => guarded_reads hstmt (.inr (by simpa using helif)) h) hothers
  obtain ⟨helse, orelse, horelse, rfl⟩ | ⟨helse, rfl, rfl⟩ := h
  · exact .branchElse hkind hfirst hothers helse (suiteOf_readsStmtAs hstmt horelse)
  · exact .branch hkind hfirst hothers helse

/-- With a way to read statements inside by the grammar, a statement follows it. -/
theorem stmtOf_readsStmtAs : ReadsStmtAs (stmtOf stmt) (.one ∘ .stmt) := by
  intro s st t h
  rw [stmtOf, get_bind, kind_bind] at h
  generalize hform : s.kind.blockForm? = form at h
  split at h
  · exact .functionStmt (TokenKind.blockForm?_cases hform) (function_readsStmtAs hstmt _ _ _ h)
  · exact decorated_reads hstmt (TokenKind.blockForm?_cases hform) h
  · exact async_reads hstmt (TokenKind.blockForm?_cases hform) h
  · exact branch_reads hstmt (TokenKind.blockForm?_cases hform) h
  · obtain ⟨hskip, rfl⟩ := skipped_eq_ok h
    exact .skipped hform hskip
  · simp only [bind_eq_ok, pure_eq_ok] at h
    obtain ⟨found, u, hst, isPassedOver, v, hend, rfl, rfl⟩ := h
    exact .lineStmt hform (lineStmt_readsStmtAs hst) (endLine_readsStmtAs hend)

end Rules

/-! ## Statements -/

/-- A statement follows the grammar, whatever the bound on its depth. -/
theorem stmtWithin_readsStmtAs (depth : Nat) : ReadsStmtAs (stmtWithin depth) (.one ∘ .stmt) := by
  induction depth with
  | zero =>
    intro s st t h
    exact absurd h throw_ne_ok
  | succ depth ih =>
    exact stmtOf_readsStmtAs ih

/-- A statement is read by the rules. -/
theorem stmt_readsStmtAs : ReadsStmtAs stmt (.one ∘ .stmt) := by
  intro s st t h
  rw [stmt, get_bind] at h
  exact stmtWithin_readsStmtAs s.fuel h

end Parse

/-- What is read of a text is read of its tokens. -/
theorem exists_tokens_of_parse {code : String} {body : List Stmt} (h : parse code = .ok body) :
    ∃ tokens, tokenize code = .ok tokens ∧ parseTokens tokens = .ok body := by
  rw [parse] at h
  exact Results.bind_eq_ok.1 h

/-- What is read of tokens is read of the stream at their beginning. -/
theorem exists_block_of_parseTokens {first : Token} {others : List Token} {body : List Stmt}
    (h : parseTokens (first :: others) = .ok body) :
    ∃ t, Parse.block (.ofTokens first others) = .ok (body, t) := by
  rw [parseTokens] at h
  split at h
  · rename_i body' t hblock
    obtain rfl := Except.ok.inj h
    exact ⟨t, hblock⟩
  · cases h
  · cases h

/-- The statements of a list of tokens are read by the rules up to the end of the text. -/
theorem readsStmt_of_parseTokens {first : Token} {others : List Token} {body : List Stmt}
    (h : parseTokens (first :: others) = .ok body) :
    ∃ t, ReadsStmt (.ofTokens first others) (.many TokenStream.hasTokens (body.map .stmt)) t := by
  obtain ⟨t, hblock⟩ := exists_block_of_parseTokens h
  exact ⟨t, Parse.manyWhile_readsStmtAs (fun _ h => Parse.stmt_readsStmtAs h) hblock⟩

end NoteCheck.Code
