/-
# Statements inside statements

The parts of the text that statements take: what stands in a statement lies inside it, no two
things in it overlap, and the statements of a list follow each other. The main statement,
`nested_of_parse`, is about all texts that can be read.
-/
import NoteCheck.Proofs.Grammar.Nested
import NoteCheck.Proofs.Grammar.StmtSound

namespace NoteCheck.Code

open Parse (Guarded chained)

/-! ## Nested statements -/

/-- Each statement of a list ends where the next one begins, or before. -/
def InSequence (body : List Stmt) : Prop :=
  body.IsChain fun st next => st.span.stop ≤ next.span.start

namespace Stmt

/-- The lists of statements directly inside a statement. -/
def blocks : Stmt → List (List Stmt)
  | function _ _ _ _ _ _ body => [body]
  | branch _ _ body orelse => [body, orelse]
  | _ => []

/-- In a statement and in all statements inside it, what stands directly inside lies in it and does
not overlap, the lists of statements are in sequence, and the expressions are nested. -/
inductive Nested : Stmt → Prop
  | intro {st} : st.span.Encloses (st.exprs.map Expr.span ++ st.stmts.map Stmt.span) →
      (∀ body ∈ st.blocks, InSequence body) → (∀ e ∈ st.exprs, e.Nested) →
      (∀ d ∈ st.stmts, Nested d) → Nested st

end Stmt

/-- Nested statements that lie between two places one after the other. -/
abbrev StmtsInOrder := InOrder Stmt.span Stmt.Nested

open TokenStream

section Around

variable {t : TokenStream} {a b c : Position} {st : Stmt} {start : Span} {es : List Expr}
  {ss : List Stmt}

/-- Statements that lie one after the other come in sequence. -/
theorem InOrder.inSequence (h : StmtsInOrder a ss b) : InSequence ss := by
  induction ss generalizing a with
  | nil => exact .nil
  | cons st ss ih =>
    obtain ⟨⟨-, -, hbetween⟩, hnested⟩ := h
    cases ss with
    | nil => exact .singleton st
    | cons next ss =>
      refine .cons_cons hbetween.1 (ih ⟨hbetween, fun d hd => hnested d ?_⟩)
      exact List.mem_cons_of_mem _ hd

/-- A statement around expressions and then statements. -/
theorem InOrder.stmt (hexprs : ExprsInOrder start.start es b) (hstmts : StmtsInOrder b ss t.here)
    (ht : t.Settled) (ha : a ≤ start.start) (hspan : st.span = start.through t.last)
    (hes : st.exprs = es) (hss : st.stmts = ss) (hblocks : ∀ body ∈ st.blocks, InSequence body) :
    StmtsInOrder a [st] t.here := by
  have hbetween := hexprs.between.append le_rfl hstmts.between
  have hencloses := hbetween.encloses
  have hnested : st.Nested := by
    refine .intro ?_ hblocks (hes ▸ hexprs.nested) (hss ▸ hstmts.nested)
    rwa [hspan, Span.through, ← ht.here_eq, hes, hss]
  refine ⟨⟨?_, ?_, ?_⟩, List.forall_mem_singleton.2 hnested⟩
  · rw [hspan]
    exact ha
  · rw [hspan, Span.through, ← ht.here_eq]
    exact hbetween.le
  · rw [hspan, Span.through, ← ht.here_eq]
    exact le_refl t.here

/-- A statement with no other statements inside it. -/
theorem InOrder.simpleStmt (hexprs : ExprsInOrder start.start es t.here) (ht : t.Settled)
    (ha : a ≤ start.start) (hspan : st.span = start.through t.last) (hes : st.exprs = es)
    (hss : st.stmts = []) (hblocks : st.blocks = []) : StmtsInOrder a [st] t.here := by
  refine hexprs.stmt (.nil le_rfl) ht ha hspan hes hss ?_
  rw [hblocks]
  exact List.forall_mem_nil _

end Around

/-! ## What is read -/

/-- Where a part of a statement lies that stands for itself. -/
def StmtPart.InOrder (a b : Position) : StmtPart → Prop
  | .line st | .stmt st => StmtsInOrder a [st] b
  | .lineOf body | .suite body => StmtsInOrder a body b
  | .decorator e => ExprsInOrder a [e] b
  | .guarded g => a ≤ g.start.start ∧
    ∃ c, ExprsInOrder g.start.start [g.test] c ∧ StmtsInOrder c g.body b
  | .lineEnd _ | .targets .. | .afterExpr .. | .function .. => True

/-- Parts that lie between two places one after the other. -/
def PartsInOrder (a : Position) : List StmtPart → Position → Prop
  | [], b => a ≤ b
  | part :: parts, b => ∃ c, part.InOrder a c ∧ PartsInOrder c parts b

/-- Where the parts of a phrase lie that is read from one stream to another. Of a part that goes on
from what stands before it, given where that lies. -/
def Phrase.StmtInOrder (s t : TokenStream) : Phrase StmtPart → Prop
  | .one (.targets before value all last) => ∀ a, ExprsInOrder a (before ++ [value]) s.here →
    ExprsInOrder a (all ++ [last]) t.here
  | .one (.afterExpr first st) => ∀ a, s.Settled → ExprsInOrder a [first] s.here →
    StmtsInOrder a [st] t.here
  | .one (.function start decorators _ st) => ∀ b, ExprsInOrder start.start decorators b →
    b ≤ s.current.span.start → StmtsInOrder start.start [st] t.here
  | .one part => part.InOrder s.current.span.start t.here
  | .many _ parts | .afterCommas _ parts | .untilClosed _ parts => ∀ a,
    a ≤ s.current.span.start → (parts = [] → a ≤ s.here) → PartsInOrder a parts t.here

section Parts

variable {s t u : TokenStream} {a b c : Position} {more : TokenStream → Bool}

/-- What is read of a statement lies between every earlier place and the stream that is left. -/
theorem Phrase.StmtInOrder.part {part : StmtPart} (h : (Phrase.one part).StmtInOrder s t)
    (ha : a ≤ s.current.span.start) : part.InOrder a t.here := by
  cases part with
  | line | stmt | lineOf | suite | decorator => exact h.mono ha le_rfl
  | guarded g =>
    obtain ⟨hstart, hbody⟩ := h
    exact ⟨ha.trans hstart, hbody⟩
  | lineEnd | targets | afterExpr | function => trivial

/-- The statements of a block are its parts. -/
theorem PartsInOrder.stmts {body : List Stmt} (h : PartsInOrder a (body.map .stmt) b) :
    StmtsInOrder a body b := by
  induction body generalizing a with
  | nil => exact .nil h
  | cons st body ih =>
    obtain ⟨c, hst, hbody⟩ := h
    exact InOrder.append hst le_rfl (ih hbody)

/-- Decorators are read as parts. -/
theorem PartsInOrder.decorators {es : List Expr} (h : PartsInOrder a (es.map .decorator) b) :
    ExprsInOrder a es b := by
  induction es generalizing a with
  | nil => exact .nil h
  | cons e es ih =>
    obtain ⟨c, he, hes⟩ := h
    exact InOrder.append he le_rfl (ih hes)

/-- A chain of conditions lies where its conditions and what they guard lie, up to its end. -/
theorem PartsInOrder.chained {first : Guarded} {others : List Guarded} {orelse : List Stmt}
    (hfirst : (StmtPart.guarded first).InOrder a b)
    (hothers : PartsInOrder b (others.map .guarded) c) (horelse : StmtsInOrder c orelse t.here)
    (ht : t.Settled) : StmtsInOrder a [chained t.last orelse first others] t.here := by
  induction others generalizing first a b with
  | nil =>
    obtain ⟨hstart, d, htest, hbody⟩ := hfirst
    refine htest.stmt (hbody.append hothers horelse) ht hstart rfl rfl rfl ?_
    exact List.forall_mem_cons.2
      ⟨hbody.inSequence, List.forall_mem_singleton.2 horelse.inSequence⟩
  | cons next others ih =>
    obtain ⟨hstart, d, htest, hbody⟩ := hfirst
    obtain ⟨e, hnext, hothers⟩ := hothers
    have hrest := ih hnext hothers
    refine htest.stmt (hbody.append le_rfl hrest) ht hstart rfl rfl rfl ?_
    exact List.forall_mem_cons.2 ⟨hbody.inSequence, List.forall_mem_singleton.2 hrest.inSequence⟩

/-! ## Tokens are taken -/

/-- A list of expressions takes a token. -/
theorem ReadsExpr.takes_of_exprList {power : BindingPower} {e : Expr}
    (h : ReadsExpr s (.one (.exprList power e)) t) : s.kind ≠ .endOfFile ∧ s.tail.Onward t := by
  cases h with
  | single h => exact h.takes
  | bareTuple h _ h' =>
    obtain ⟨hkind, htail⟩ := h.takes
    exact ⟨hkind, htail.trans h'.onward⟩

/-- A guarded block takes its keyword. -/
theorem ReadsStmt.takes_of_guarded {g : Guarded} (h : ReadsStmt s (.one (.guarded g)) t) :
    s.tail.Onward t := by
  cases h with
  | guarded _ he h => exact he.onward.trans h.onward

/-- Where a decorator stands one is read. -/
theorem ReadsStmt.takes_of_decorators {es : List Expr} (hkind : s.kind = .atSign)
    (h : ReadsStmt s (.many (·.kind = .atSign) (es.map .decorator)) t) :
    es ≠ [] ∧ s.tail.Onward t := by
  cases es with
  | nil =>
    cases h with
    | manyDone hdone => exact absurd hkind (of_decide_eq_false hdone)
  | cons e es =>
    cases h with
    | manyNext _ hfirst hrest =>
      cases hfirst with
      | decorator _ he => exact ⟨List.cons_ne_nil _ _, he.onward.next.trans hrest.onward⟩

/-- A statement that is passed over. -/
theorem TokenStream.IsSpaced.skipped {form : SkippedForm} (hs : s.IsSpaced)
    (hkind : s.kind ≠ .endOfFile) (h : s.tail.Onward t) :
    StmtsInOrder s.current.span.start [.skipped (s.current.span.through t.last) form] t.here :=
  InOrder.simpleStmt (.nil ((hs.start_le_here_tail hkind).trans (hs.tail.here_le h)))
    (hs.settled hkind h) le_rfl rfl rfl rfl rfl

end Parts

/-- The statements that are read lie one after the other, nested each in itself. -/
theorem ReadsStmt.inOrder {s t : TokenStream} {phrase : Phrase StmtPart}
    (h : ReadsStmt s phrase t) : s.IsSpaced → phrase.StmtInOrder s t := by
  induction h with
  -- statements that begin with an expression
  | targetsEnd => exact fun _ _ => id
  | targetsNext _ he _ ih =>
    intro hs a hbefore
    exact ih (hs.tail.onward he.onward) a
      (hbefore.append hs.here_le_start_tail (he.inOrder hs.tail))
  | assign hassign he h ih =>
    intro hs a _ hfirst
    have hall := ih (hs.tail.onward he.onward) _
      (hfirst.head.2.append hs.here_le_start_tail (he.inOrder hs.tail))
    have hu := hs.settled (by rw [hassign]; decide) (he.onward.trans h.onward)
    exact hall.simpleStmt hu hfirst.head.1 rfl rfl rfl rfl
  | annotated hcolon htype =>
    intro hs a _ hfirst
    have hall := hfirst.head.2.append hs.here_le_start_tail (htype.inOrder hs.tail)
    have ht := hs.settled (by rw [hcolon]; decide) htype.onward
    exact hall.simpleStmt ht hfirst.head.1 rfl rfl rfl rfl
  | annotatedAssign hcolon htype _ he =>
    intro hs a _ hfirst
    have ht := hs.tail.onward htype.onward
    have hall := (hfirst.head.2.append hs.here_le_start_tail (htype.inOrder hs.tail)).append
      ht.here_le_start_tail (he.inOrder ht.tail)
    have hu := hs.settled (by rw [hcolon]; decide) (htype.onward.next.trans he.onward)
    exact hall.simpleStmt hu hfirst.head.1 rfl rfl rfl rfl
  | augmentedAssign hop he =>
    intro hs a _ hfirst
    have hall := hfirst.head.2.append hs.here_le_start_tail (he.inOrder hs.tail)
    have ht := hs.settled (by rintro heof; rw [heof] at hop; cases hop) he.onward
    exact hall.simpleStmt ht hfirst.head.1 rfl rfl rfl rfl
  | expression =>
    intro hs a hsettled hfirst
    exact hfirst.head.2.simpleStmt hsettled hfirst.head.1 rfl rfl rfl rfl
  -- statements on a line of their own
  | ret hkind =>
    intro hs
    have hkind := hkind.trans_ne (c := .endOfFile) (by decide)
    exact InOrder.simpleStmt (.nil (hs.start_le_here_tail hkind)) (hs.settled hkind .refl) le_rfl
      rfl rfl rfl rfl
  | retValue hkind _ he =>
    intro hs
    have hkind := hkind.trans_ne (c := .endOfFile) (by decide)
    have he' := (he.inOrder hs.tail).mono (hs.start_le_tail hkind) le_rfl
    exact he'.simpleStmt (hs.settled hkind he.onward) le_rfl rfl rfl rfl rfl
  | skippedLine hform hskip =>
    exact fun hs => hs.skipped (by rintro heof; rw [heof] at hform; cases hform)
      (Parse.skipUntil_onward hskip)
  | exprLine _ he _ ih =>
    intro hs
    obtain ⟨hkind, htail⟩ := he.takes_of_exprList
    exact ih (hs.onward he.onward) _ (hs.settled hkind htail) (he.inOrder hs)
  | newlineEnd | blockEnd | semicolonEnd => exact fun _ => trivial
  | lineLast h h' ih =>
    exact fun hs => (ih hs).mono le_rfl ((hs.onward h.onward).here_le h'.onward)
  | lineNext h h' _ ih _ ih' =>
    intro hs
    have ht := hs.onward h.onward
    exact (ih hs).append ((ht.here_le h'.onward).trans (here_le_start _))
      (ih' (ht.onward h'.onward))
  -- statements with blocks
  | block hcolon _ _ h _ ih =>
    intro hs
    have hblock := hs.tail.tail.tail
    have hle := (hs.start_le_here_tail (hcolon.trans_ne (by decide))).trans
      (hs.tail.here_le (.tail .single))
    have hbody := (ih hblock _ (here_le_start _) fun _ => le_rfl).stmts
    exact hbody.mono hle (hblock.onward h.onward).here_le_tail
  | inline hcolon _ _ ih =>
    exact fun hs => (ih hs.tail).mono (hs.start_le_tail (hcolon.trans_ne (by decide))) le_rfl
  | function hdef _ _ hparameters _ hreturns h ih =>
    intro hs b hdecorators hb
    have hkind := hdef.trans_ne (c := .endOfFile) (by decide)
    have hinside := hs.tail.tail.tail
    have hopen := (hs.start_le_here_tail hkind).trans (hs.tail.here_le (.tail .single))
    have ht := hinside.onward hparameters.onward
    have hparts := ExprsInOrder.of_map (fun _ => rfl) (hparameters.inOrder hinside)
    have hall := (hdecorators.append (hb.trans hopen) hparts).append ht.here_le_tail
      (hreturns.inOrder ht.tail)
    have hbody := (ih (ht.tail.onward hreturns.onward)).mono (here_le_start _) le_rfl
    have hv := hs.settled hkind (.tail (.tail (hparameters.onward.trans
      (.tail (hreturns.onward.trans h.onward)))))
    exact hall.stmt hbody hv le_rfl rfl rfl rfl (List.forall_mem_singleton.2 hbody.inSequence)
  | decorator hat he _ =>
    exact fun hs => (he.inOrder hs.tail).mono (hs.start_le_tail (hat.trans_ne (by decide)))
      (hs.tail.onward he.onward).here_le_tail
  | guarded hif he _ ih =>
    intro hs
    have hkind : TokenStream.kind _ ≠ .endOfFile := hif.elim
      (·.trans_ne (by decide)) (·.trans_ne (by decide))
    have htest := (he.inOrder hs.tail).mono (hs.start_le_tail hkind) le_rfl
    exact ⟨le_rfl, _, htest, (ih (hs.tail.onward he.onward)).mono (here_le_start _) le_rfl⟩
  -- statements
  | functionStmt _ _ ih => exact fun hs => ih hs _ (.nil le_rfl) le_rfl
  | asyncFunction hasync _ ih =>
    exact fun hs => ih hs.tail _ (.nil le_rfl) (hs.start_le_tail (hasync.trans_ne (by decide)))
  | decorated hat h _ ih ih' =>
    intro hs
    have hne := (h.takes_of_decorators hat).1
    have hall := (ih hs _ le_rfl fun hnil => absurd (List.map_eq_nil_iff.1 hnil) hne).decorators
    exact ih' (hs.onward h.onward) _ hall (here_le_start _)
  | decoratedAsync hat h _ _ ih ih' =>
    intro hs
    have ht := hs.onward h.onward
    have hne := (h.takes_of_decorators hat).1
    have hall := (ih hs _ le_rfl fun hnil => absurd (List.map_eq_nil_iff.1 hnil) hne).decorators
    exact ih' ht.tail _ hall ht.here_le_start_tail
  | decoratedClass hat h _ hskip =>
    exact fun hs => hs.skipped (hat.trans_ne (by decide))
      ((h.takes_of_decorators hat).2.trans (.tail (Parse.skipClauses_takes hskip)))
  | asyncFor hasync _ hskip | asyncWith hasync _ hskip =>
    exact fun hs => hs.skipped (hasync.trans_ne (by decide))
      (.tail (Parse.skipClauses_takes hskip))
  | branch hif h h' _ ih ih' =>
    intro hs
    have ht := hs.onward h.onward
    have hu := hs.settled (hif.trans_ne (by decide)) (h.takes_of_guarded.trans h'.onward)
    exact PartsInOrder.chained (ih hs) (ih' ht _ (here_le_start _) fun _ => le_rfl) (.nil le_rfl) hu
  | branchElse hif h h' _ h'' ih ih' ih'' =>
    intro hs
    have ht := hs.onward h.onward
    have hu := ht.onward h'.onward
    have hv := hs.settled (hif.trans_ne (by decide))
      (h.takes_of_guarded.trans (h'.onward.trans (.tail h''.onward)))
    exact PartsInOrder.chained (ih hs) (ih' ht _ (here_le_start _) fun _ => le_rfl)
      ((ih'' hu.tail).mono hu.here_le_start_tail le_rfl) hv
  | skipped hform hskip =>
    exact fun hs => hs.skipped (by rintro heof; rw [heof] at hform; cases hform)
      (Parse.skipClauses_takes hskip)
  | lineStmt _ h h' ih =>
    exact fun hs => (ih hs).mono le_rfl ((hs.onward h.onward).here_le h'.onward)
  -- loops
  | manyDone => exact fun _ a _ hnil => hnil rfl
  | manyNext _ h _ ih ih' =>
    intro hs a ha _
    have ht := hs.onward h.onward
    exact ⟨_, (ih hs).part ha, ih' ht _ (here_le_start _) fun _ => le_rfl⟩

/-! ## The whole text -/

/-- The tokens of a code lie one after the other. -/
theorem isSpaced_of_tokenize {code : String} {first : Token} {others : List Token}
    (h : tokenize code = .ok (first :: others)) : (ofTokens first others).IsSpaced where
  between := by
    obtain ⟨stop, hbetween⟩ := between_of_tokenize h
    exact ⟨stop, le_rfl, hbetween.2⟩
  ends := by
    obtain ⟨before, last, hlast, hkind, -⟩ := endsOnce_of_tokenize h
    intro a ha
    rw [tokens, ofTokens, hlast, List.getLast?_concat] at ha
    obtain rfl := Option.some.inj ha
    exact hkind

/-- The statements of a block follow each other, and in each of them everything lies inside what it
stands in and does not overlap. -/
theorem nested_of_parse {code : String} {body : List Stmt} (h : parse code = .ok body) :
    InSequence body ∧ ∀ st ∈ body, st.Nested := by
  obtain ⟨tokens, htokenize, hparse⟩ := exists_tokens_of_parse h
  cases tokens with
  | nil =>
    cases hparse
    exact ⟨.nil, List.forall_mem_nil _⟩
  | cons first others =>
    obtain ⟨t, hreads⟩ := readsStmt_of_parseTokens hparse
    have hbody := (hreads.inOrder (isSpaced_of_tokenize htokenize) _ (here_le_start _)
      fun _ => le_rfl).stmts
    exact ⟨hbody.inSequence, hbody.nested⟩

/-- A block with a decorator, a group that does not belong to the place of what it holds, a letter
of two bytes, and a chain of conditions. -/
theorem nested_of_parse_block :
    ∃ body, parse ("@g\ndef f(a, b=1):\n  return (a)[b:, 'é'] and a and b\n" ++
        "if a: b\nelif b:\n  c = f(a, k=b)\nelse: d\n") = .ok body ∧
      InSequence body ∧ ∀ st ∈ body, st.Nested :=
  (Results.exists_of_isOk (by decide +kernel)).imp fun body hparse =>
    ⟨hparse, nested_of_parse hparse⟩

end NoteCheck.Code
