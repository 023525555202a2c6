/-
# Reading the same statements in two texts

What is read of statements does not depend on where they stand in the text, nor on what follows
them, unless it is a further clause of the last one. The main statement is `Parse.agree_stmt`.
-/
import NoteCheck.Proofs.Grammar.AlikeExpr
import NoteCheck.Proofs.Grammar.StmtSound

namespace NoteCheck.Code

/-- A statement without the parts of the text that it takes. -/
abbrev Stmt.bare : Stmt → Stmt := Stmt.mapSpan fun _ => ⟨.start, .start⟩

/-- No mark of layout opens a statement with a block. -/
theorem TokenKind.isLayout_of_blockForm? {kind : TokenKind} {form : BlockForm}
    (h : kind.blockForm? = some form) : kind.isLayout = false := by
  cases kind <;> first | rfl | cases h

/-- No mark of layout opens a statement on a line of its own. -/
theorem TokenKind.isLayout_of_lineForm? {kind : TokenKind} {form : LineForm}
    (h : kind.lineForm? = some form) : kind.isLayout = false := by
  cases kind <;> first | rfl | cases h

namespace Parse

variable {c : Comparison}

/-! ## Statements on a line of their own -/

/-- An assignment has the same targets and the same value in both texts. -/
theorem agree_assigned {first first' : Expr}
    (hfirst : first.mapSpan c.left = first'.mapSpan c.right) :
    AgreeOn c (·.kind = .assign) (both (each Expr.mapSpan) Expr.mapSpan) (assigned first)
      (assigned first') := by
  refine .advance rfl fun _ _ _ _ => (agree_exprList .default).bind fun value value' hvalue => ?_
  refine .loop (F := both (each Expr.mapSpan) Expr.mapSpan) (fun _ _ hst => hst.fuel_le)
    (fun a b hab => .skip? rfl fun more => ?_) (by simp [hfirst, hvalue])
  obtain ⟨targets, last⟩ := a
  obtain ⟨targets', last'⟩ := b
  obtain ⟨htargets, hlast⟩ := Prod.mk.inj hab
  refine .ite (fun _ => ?_) fun _ => .lastRound hab
  refine (agree_exprList .default).bind fun next next' hnext => .nextRound ?_
  exact Prod.ext (AgreeFrom.each_append htargets hlast) hnext

/-- An expression begins the same statement in both texts. -/
theorem agree_afterExpr {first first' : Expr}
    (hfirst : first.mapSpan c.left = first'.mapSpan c.right) :
    Agree c Stmt.mapSpan (afterExpr first) (afterExpr first') := by
  have hstart := span_eq hfirst
  refine .kindOn fun kind => ?_
  split
  · refine (agree_assigned hfirst).bind fun found found' hfound => .spanFrom hstart fun _ _ hs => ?_
    obtain ⟨htargets, hvalue⟩ := Prod.mk.inj hfound
    exact .pure (by simp [htargets, hvalue, hs])
  · refine .advance rfl fun _ _ _ _ => (agree_expr .default).bind fun type type' htype => ?_
    have hrest (value value' : Option Expr)
        (hvalue : perhaps Expr.mapSpan c.left value = perhaps Expr.mapSpan c.right value') :
        Agree c Stmt.mapSpan
          (do return .annotatedAssign (← spanFrom first.span) first type value)
          (do return .annotatedAssign (← spanFrom first'.span) first' type' value') :=
      .spanFrom hstart fun _ _ hs => .pure (by simp [hfirst, htype, hvalue, hs])
    refine .skip? rfl fun found => .ite (fun _ => ?_) fun _ => ?_
    · exact (AgreeFrom.some (agree_exprList .default)).bind hrest
    · exact (AgreeFrom.pure (F := perhaps Expr.mapSpan) rfl).bind hrest
  · cases hoperator : kind.augmentedOp? with
    | none => exact .on (.spanFrom hstart fun _ _ hs => .pure (by simp [hfirst, hs]))
    | some operator =>
      have hgo : kind.goesOn = true := by cases kind <;> first | rfl | cases hoperator
      refine .advance hgo fun _ _ _ _ => (agree_exprList .default).bind fun value value' hvalue =>
        ?_
      exact .spanFrom hstart fun _ _ hs => .pure (by simp [hfirst, hvalue, hs])

/-- Before the end of the line no block ends. -/
theorem agree_skipUntil {stop : TokenKind → Bool} (hstop : stop .newline = true) :
    AgreeFrom c (fun s t => c.Alike s t ∧ s.kind ≠ .dedent) plain (fun _ => c.Alike)
      (skipUntil stop) (skipUntil stop) := by
  refine .loop (F := plain) (fun _ _ hst => hst.1.fuel_le) (fun _ _ _ => ?_) rfl
  refine .kindOf (P := (· ≠ .dedent)) fun kind hkind => .ite (fun _ => ?_) fun hgo => ?_
  · exact .pureOf rfl fun _ _ hst => hst.1
  · refine .advanceIn (fun s hs => ?_) fun _ _ _ _ => .nextRound rfl
    rw [hs]
    refine TokenKind.goesOn_of_ne ?_ hkind
    rintro rfl
    exact hgo hstop

/-- A statement on a line of its own is the same in both texts. -/
theorem agree_lineStmt : Agree c Stmt.mapSpan lineStmt lineStmt := by
  refine .kindOn fun kind => ?_
  cases hform : kind.lineForm? with
  | none =>
    exact .on ((agree_exprList .default).bind fun e e' he => agree_afterExpr he)
  | some form =>
    have hlayout := TokenKind.isLayout_of_lineForm? hform
    have hgo := TokenKind.goesOn_of_isLayout hlayout
    cases form with
    | ret =>
      refine .advance hgo fun a b ha hab => .kind fun kind => ?_
      have hspan := hab.span (by rw [ha]; exact hlayout)
      have hrest (value value' : Option Expr)
          (hvalue : perhaps Expr.mapSpan c.left value = perhaps Expr.mapSpan c.right value') :
          Agree c Stmt.mapSpan (do return .ret (← spanFrom a.span) value)
            (do return .ret (← spanFrom b.span) value') :=
        .spanFrom hspan fun _ _ hs => .pure (by simp [hvalue, hs])
      refine .ite (fun _ => ?_) fun _ => ?_
      · exact (AgreeFrom.some (agree_exprList .default)).bind hrest
      · exact (AgreeFrom.pure (F := perhaps Expr.mapSpan) rfl).bind hrest
    | skipped form =>
      refine .advanceIn (fun _ hs => hs ▸ hgo) fun s t hs hst => ?_
      refine (agree_skipUntil rfl).bind fun _ _ _ => ?_
      have hspan := hst.current.span (by rw [← hs] at hlayout; exact hlayout)
      exact .spanFrom hspan fun _ _ hs => .pure (by simp [hs])

/-- After the end of the line the first text may have ended. -/
theorem agree_endLine : AgreeFrom c c.Alike plain
    (fun done s t => c.Reached s t ∧ (done = false → c.Alike s t)) endLine endLine := by
  refine .skip? rfl fun semicolon => .kindOn fun kind => ?_
  split
  · exact .on (.advanceOut fun _ _ => .pureOf rfl fun _ _ hst =>
      ⟨hst, fun h => absurd h (by decide)⟩)
  · exact .pureOf rfl fun _ _ hst => ⟨.of_alike hst.1, fun _ => hst.1⟩
  · exact .pureOf rfl fun _ _ hst => ⟨.of_alike hst.1, fun _ => hst.1⟩
  · exact .ite (fun _ => .pureOf rfl fun _ _ hst => ⟨.of_alike hst.1, fun _ => hst.1⟩)
      fun _ => .unexpected

/-- A line has the same statements in both texts, and after it the first text may be at its end. -/
theorem agree_line : AgreeFrom c c.Alike (each Stmt.mapSpan) (fun _ => c.Reached) line line := by
  refine .loop (F := each Stmt.mapSpan) (fun _ _ hst => hst.fuel_le) (fun found found' hfound => ?_)
    rfl
  refine agree_lineStmt.bind fun s s' hs => agree_endLine.bind fun done done' hdone => ?_
  obtain rfl : done = done' := hdone
  have hall := AgreeFrom.each_append hfound hs
  refine .ite (fun _ => ?_) fun hdone => ?_
  · exact .pureOf (congrArg Sum.inr hall) fun _ _ hst => hst.1
  · exact .pureOf (congrArg Sum.inl hall) fun _ _ hst => hst.2 (Bool.eq_false_iff.2 hdone)

/-! ## Passing over statements with blocks -/

/-- The head of a clause stands on a line that has not ended. -/
theorem agree_skipHead : AgreeFrom c (fun s t => c.Alike s t ∧ s.kind ≠ .dedent) plain
    (fun _ s t => c.Alike s t ∧ s.kind ≠ .dedent) skipHead skipHead := by
  refine .loop (F := plain) (fun _ _ hst => hst.1.fuel_le) (fun depth depth' hdepth => ?_) rfl
  obtain rfl : depth = depth' := hdepth
  refine .kindOf (P := (· ≠ .dedent)) fun kind hkind => ?_
  split
  · exact .unexpected
  · exact .unexpected
  · rename_i hend hline
    refine .advanceIn (fun s hs => hs ▸ TokenKind.goesOn_of_ne hline hkind) fun _ _ _ _ => ?_
    exact .ite (fun _ => .lastRound rfl) fun _ => .nextRound rfl

/-- Both texts pass over the same block, even where the first one ends with it. -/
theorem agree_skipBlock : AgreeFrom c c.Reached plain (fun _ => c.Reached) skipBlock skipBlock := by
  refine .loop (F := plain) (fun _ _ hst => hst.fuel_le) (fun depth depth' hdepth => ?_) rfl
  obtain rfl : depth = depth' := hdepth
  refine .reached (fun s b u hs h => ?_) (.kind fun kind => ?_)
  · rw [kind_bind, if_pos hs] at h
    exact unexpected_ne_ok h
  · refine .ite (fun _ => .unexpected) fun _ => .advanceOut fun _ _ => ?_
    split
    · exact .nextRound rfl
    · exact .lastRound rfl
    · exact .nextRound rfl
    · exact .nextRound rfl

/-- After a clause the first text may have ended. -/
theorem agree_skipClause : AgreeFrom c (fun s t => c.Alike s t ∧ s.kind ≠ .dedent) plain
    (fun _ => c.Reached) skipClause skipClause := by
  refine agree_skipHead.bind fun _ _ _ => .skipOut (fun _ _ => And.left) ?_ ?_
  · exact .expectAfter (by decide) (.expect rfl fun _ _ _ _ =>
      agree_skipBlock.mono (fun _ _ => .inl) fun _ _ _ => id)
  · refine (agree_skipUntil rfl).bind fun _ _ _ => .skipOut (fun _ _ => id) ?_ ?_
    · exact .pure rfl
    · exact .pureOf rfl fun _ _ => .inl

/-- Both texts pass over the same clauses, for what follows the first text is no further clause. -/
theorem agree_skipClauses : AgreeFrom c (fun s t => c.Alike s t ∧ s.kind ≠ .dedent) plain
    (fun _ => c.Reached) skipClauses skipClauses := by
  refine agree_skipClause.bind fun _ _ _ =>
    .loop (F := plain) (fun _ _ hst => hst.fuel_le) (fun _ _ _ => ?_) rfl
  refine .kindIf (fun _ _ hst => hst.continuesBlock_eq) ?_ (.lastRound rfl)
  refine (agree_skipClause.mono ?_ fun _ _ _ => id).bind fun _ _ _ => .nextRound rfl
  exact fun _ _ hst => hst.1.alike_of_continuesBlock hst.2

/-- A statement that is passed over is of the same form in both texts. -/
theorem agree_skipped {a b : Span} (hab : c.left a = c.right b) (form : SkippedForm) :
    AgreeFrom c (fun s t => c.Alike s t ∧ s.kind ≠ .dedent) Stmt.mapSpan (fun _ => c.Reached)
      (skipped a form) (skipped b form) :=
  agree_skipClauses.bind fun _ _ _ => .spanFrom hab fun _ _ hs => .pure (by simp [hs])

/-! ## Statements with blocks -/

/-- Readings of a line or a statement that agree: after it the first text may have ended. -/
abbrev AgreeOut {α γ : Type} (c : Comparison) (F : (Span → Span) → α → γ) (p q : Parse α) : Prop :=
  AgreeFrom c c.Alike F (fun _ => c.Reached) p q

section Rules

variable {stmt stmt' : Parse Stmt} (h : AgreeOut c Stmt.mapSpan stmt stmt')

include h

/-- The part after the head of a statement is the same in both texts. -/
theorem agree_suiteOf : AgreeOut c (each Stmt.mapSpan) (suiteOf stmt) (suiteOf stmt') := by
  refine .expect rfl fun _ _ _ _ => .skipOut (fun _ _ => id) ?_ agree_line
  refine .expectAfter (by decide) (.expect rfl fun _ _ _ _ => ?_)
  refine (AgreeFrom.itemsThen ?_ (fun _ _ hst => by rw [hst.kind]) h.on
    (fun body body' hbody => .expectOut fun _ _ => .pure hbody) ?_).mono (fun _ _ => .inl)
    fun _ _ _ => id
  · intro s hs
    rw [hs]
    rfl
  · intro body s b u hs hread
    rw [expect_bind_eq_ok, hs] at hread
    cases hread.1

/-- A function is the same in both texts, with its parameters and its body. -/
theorem agree_function {a b : Span} (hab : c.left a = c.right b)
    {decorators decorators' : List Expr}
    (hdecorators : each Expr.mapSpan c.left decorators = each Expr.mapSpan c.right decorators')
    (isAsync : Bool) : AgreeOut c Stmt.mapSpan (function stmt a decorators isAsync)
      (function stmt' b decorators' isAsync) := by
  refine .expect rfl fun _ _ _ _ => .expect rfl fun name name' hname hlike =>
    .expect rfl fun _ _ _ _ => ?_
  have htext := hlike.text (by rw [hname]; rfl)
  refine (agree_parameters .closeParen true).bind fun ps ps' hps => .expect rfl fun _ _ _ _ => ?_
  have hrest (returns returns' : Option Expr)
      (hreturns : perhaps Expr.mapSpan c.left returns = perhaps Expr.mapSpan c.right returns') :
      AgreeOut c Stmt.mapSpan
        (do
          let body ← suiteOf stmt
          return .function (← spanFrom a) name.text ps returns decorators isAsync body)
        (do
          let body ← suiteOf stmt'
          return .function (← spanFrom b) name'.text ps' returns' decorators' isAsync body) := by
    refine (agree_suiteOf h).bind fun body body' hbody => .spanFrom hab fun _ _ hs => .pure ?_
    simp [htext, hps, hreturns, hdecorators, hbody, hs]
  refine .skip? rfl fun arrow => .ite (fun _ => ?_) fun _ => ?_
  · exact (AgreeFrom.some (agree_expr .default)).bind hrest
  · exact (AgreeFrom.pure (F := perhaps Expr.mapSpan) rfl).bind hrest

omit h in
/-- A decorator is the same in both texts. -/
theorem agree_decorator : AgreeOut c Expr.mapSpan decorator decorator := by
  refine .expect rfl fun _ _ _ _ => (agree_expr .default).bind fun e e' he => ?_
  exact .expectOut fun _ _ => .pure he

/-- What decorators belong to is the same in both texts. -/
theorem agree_decorated {a b : Span} (hab : c.left a = c.right b) :
    AgreeOut c Stmt.mapSpan (decorated stmt a) (decorated stmt' b) := by
  refine (AgreeFrom.itemsThen ?_ (fun _ _ hst => by rw [hst.kind]) agree_decorator.on
    (fun decorators decorators' hdecorators => .kindOn fun kind => ?_) ?_).mono (fun _ _ => .inl)
    fun _ _ _ => id
  · intro s hs
    rw [hs]
    rfl
  · split
    · exact (agree_function h hab hdecorators false).on
    · exact .advance rfl fun _ _ _ _ => agree_function h hab hdecorators true
    · exact (agree_skipped hab .classDefinition).mono
        (fun _ _ hst => ⟨hst.1, hst.2 ▸ by decide⟩) fun _ _ _ => id
    · exact .unexpectedFor
  · intro body s b u hs hread
    rw [kind_bind, hs] at hread
    exact unexpectedFor_ne_ok hread

/-- A statement after `async` is the same in both texts. -/
theorem agree_async {a b : Span} (hab : c.left a = c.right b) :
    AgreeFrom c (fun s t => c.Alike s t ∧ s.kind = .kwAsync) Stmt.mapSpan (fun _ => c.Reached)
      (async stmt a) (async stmt' b) := by
  refine .advance rfl fun _ _ _ _ => .kindOn fun kind => ?_
  have hskipped {kind : TokenKind} (hkind : kind ≠ .dedent) (form : SkippedForm) :
      AgreeFrom c (fun s t => c.Alike s t ∧ s.kind = kind) Stmt.mapSpan (fun _ => c.Reached)
        (skipped a form) (skipped b form) :=
    (agree_skipped hab form).mono (fun _ _ hst => ⟨hst.1, hst.2 ▸ hkind⟩) fun _ _ _ => id
  split
  · exact (agree_function h hab rfl true).on
  · exact hskipped (by decide) .asyncForLoop
  · exact hskipped (by decide) .asyncWithBlock
  · exact .unexpected

/-- A condition and what it guards, with the spans in them replaced. -/
def Guarded.mapSpan (f : Span → Span) (g : Guarded) : Span × Expr × List Stmt :=
  (f g.start, g.test.mapSpan f, g.body.map (Stmt.mapSpan f))

/-- A condition guards the same in both texts. -/
theorem agree_guarded : AgreeFrom c (fun s t => c.Alike s t ∧ s.kind.isLayout = false)
    Guarded.mapSpan (fun _ => c.Reached) (guarded stmt) (guarded stmt') := by
  refine .advanceOn (fun _ hs => TokenKind.goesOn_of_isLayout hs) fun s t hs hst => ?_
  refine (agree_expr .default).bind fun test test' htest => ?_
  refine (agree_suiteOf h).bind fun body body' hbody => .pure ?_
  exact Prod.ext (hst.current.span hs) (Prod.ext htest hbody)

omit h in
/-- Chains of conditions are the same up to spans when their parts are, wherever they end. -/
theorem mapSpan_chained (stop stop' : Span) {orelse orelse' : List Stmt}
    (horelse : each Stmt.mapSpan c.left orelse = each Stmt.mapSpan c.right orelse')
    {first first' : Guarded} (hfirst : first.mapSpan c.left = first'.mapSpan c.right)
    {others others' : List Guarded}
    (hothers : each Guarded.mapSpan c.left others = each Guarded.mapSpan c.right others') :
    (chained stop orelse first others).mapSpan c.left =
      (chained stop' orelse' first' others').mapSpan c.right := by
  induction others generalizing first first' others' with
  | nil =>
    obtain rfl := List.map_eq_nil_iff.1 hothers.symm
    obtain ⟨hstart, hmore⟩ := Prod.mk.inj hfirst
    obtain ⟨htest, hbody⟩ := Prod.mk.inj hmore
    simp [chained, c.left_through, c.right_through, hstart, htest, hbody, horelse]
  | cons next others ih =>
    obtain ⟨next', others', rfl, hnext, hmore⟩ := List.map_eq_cons_iff.1 hothers.symm
    obtain ⟨hstart, hparts⟩ := Prod.mk.inj hfirst
    obtain ⟨htest, hbody⟩ := Prod.mk.inj hparts
    have hrest := ih hnext.symm hmore.symm
    simp [chained, c.left_through, c.right_through, hstart, htest, hbody, hrest]

/-- A chain of conditions is the same in both texts, and ends in both. -/
theorem agree_branch : AgreeFrom c (fun s t => c.Alike s t ∧ s.kind.isLayout = false)
    Stmt.mapSpan (fun _ => c.Reached) (branch stmt) (branch stmt') := by
  refine (agree_guarded h).bind fun first first' hfirst => ?_
  have hothers : AgreeFrom c c.Reached (each Guarded.mapSpan) (fun _ => c.Reached)
      (manyWhile (·.kind = .kwElif) (guarded stmt))
        (manyWhile (·.kind = .kwElif) (guarded stmt')) := by
    refine .manyWhile (fun _ _ hst => hst.fuel_le) (fun s t hst => ?_) ?_
    · exact decide_eq_decide.2 (hst.eq_of_continuesBlock rfl)
    · refine (agree_guarded h).mono (fun s t hst => ?_) fun _ _ _ => id
      have hkind := of_decide_eq_true hst.2
      exact ⟨(hst.1.alike_of_continuesBlock (hkind ▸ rfl)).1, hkind ▸ rfl⟩
  refine hothers.bind fun others others' hothers => ?_
  have hrest (orelse orelse' : List Stmt)
      (horelse : each Stmt.mapSpan c.left orelse = each Stmt.mapSpan c.right orelse') :
      AgreeFrom c c.Reached Stmt.mapSpan (fun _ => c.Reached)
        (do return chained (← get).last orelse first others)
        (do return chained (← get).last orelse' first' others') :=
    .get fun s t _ => .pure (mapSpan_chained s.last t.last horelse hfirst hothers)
  refine .skipClause rfl ?_ ?_
  · exact (agree_suiteOf h).bind hrest
  · exact (AgreeFrom.pure (F := each Stmt.mapSpan) rfl).bind hrest

/-- With a way to read statements inside alike, a statement is read alike in both texts. -/
theorem agree_stmtOf : AgreeOut c Stmt.mapSpan (stmtOf stmt) (stmtOf stmt') := by
  have hline : AgreeOut c Stmt.mapSpan (do let found ← lineStmt; let _ ← endLine; return found)
      (do let found ← lineStmt; let _ ← endLine; return found) :=
    agree_lineStmt.bind fun a b hab => agree_endLine.bind fun _ _ _ => .pureOf hab fun _ _ =>
      And.left
  intro s t hst a u ha
  rw [stmtOf, get_bind, kind_bind] at ha ⊢
  rw [← hst.kind]
  cases hform : s.kind.blockForm? with
  | none =>
    rw [hform] at ha
    exact hline hst ha
  | some form =>
    rw [hform] at ha
    have hlayout := TokenKind.isLayout_of_blockForm? hform
    have hspan := hst.current.span hlayout
    cases form with
    | function => exact agree_function h hspan rfl false hst ha
    | decorated => exact agree_decorated h hspan hst ha
    | async => exact agree_async h hspan ⟨hst, TokenKind.blockForm?_cases hform⟩ ha
    | branch => exact agree_branch h ⟨hst, hlayout⟩ ha
    | skipped form =>
      refine agree_skipped hspan form ⟨hst, fun hkind => ?_⟩ ha
      rw [hkind] at hlayout
      cases hlayout

end Rules

/-- Statements are read alike at every depth, and where the bound on the depth is higher. -/
theorem agree_stmtWithin {n m : Nat} (hnm : n ≤ m) :
    AgreeOut c Stmt.mapSpan (stmtWithin n) (stmtWithin m) := by
  induction n generalizing m with
  | zero => exact fun _ _ _ _ _ h => absurd h throw_ne_ok
  | succ n ih =>
    obtain ⟨m, rfl⟩ : ∃ k, m = k + 1 := ⟨m - 1, by omega⟩
    exact agree_stmtOf (ih (by omega))

/-- What is read as a statement is read alike wherever it stands. -/
theorem agree_stmt : AgreeOut c Stmt.mapSpan stmt stmt :=
  .get fun _ _ hst => agree_stmtWithin hst.fuel_le

end Parse

end NoteCheck.Code
