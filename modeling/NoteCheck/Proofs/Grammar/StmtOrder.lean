/-
# Statements in the order of the text

The statements directly inside a statement follow each other, also those of its else part after
those of its body. The main statement, `ordered_of_parse`, is about every depth of all texts that
can be read.
-/
import NoteCheck.Proofs.Grammar.StmtNested
import Mathlib.Data.List.Chain

namespace NoteCheck.Code

open Parse (Guarded)
open TokenStream

/-! ## Ordered statements -/

namespace Stmt

/-- In a statement and in all statements inside it, those that stand directly inside follow each
other. -/
inductive Ordered : Stmt → Prop
  | intro {st} : InSequence st.stmts → (∀ d ∈ st.stmts, Ordered d) → Ordered st

/-- A statement without statements inside has them in order. -/
theorem Ordered.of_stmts_eq_nil {st : Stmt} (h : st.stmts = []) : st.Ordered := by
  refine .intro ?_ ?_
  · rw [h]
    exact .nil
  · rw [h]
    exact List.forall_mem_nil _

end Stmt

/-! ## What is read -/

/-- What holds of the statements of a part that is read. -/
def StmtPart.Ordered : StmtPart → Prop
  | .line st | .stmt st | .afterExpr _ st | .function _ _ _ st => st.Ordered
  | .lineOf body | .suite body => ∀ st ∈ body, st.Ordered
  | .guarded g => ∀ st ∈ g.body, st.Ordered
  | .lineEnd _ | .targets .. | .decorator _ => True

/-- What holds of the statements of all parts of a phrase. -/
def Phrase.StmtOrdered : Phrase StmtPart → Prop
  | .one part => part.Ordered
  | .many _ parts | .afterCommas _ parts | .untilClosed _ parts => ∀ part ∈ parts, part.Ordered

/-- What is read as parts of one kind is in order as those parts are. -/
theorem ordered_of_map {α : Type} {f : α → StmtPart} {as : List α}
    (h : ∀ part ∈ as.map f, part.Ordered) : ∀ a ∈ as, (f a).Ordered :=
  List.forall_mem_map.1 h

/-- In a chain of conditions what a condition guards follows what the one before it guards. -/
theorem PartsInOrder.ordered_chained {t : TokenStream} {a b c : Position} {first : Guarded}
    {others : List Guarded} {orelse : List Stmt} (hfirst : (StmtPart.guarded first).InOrder a b)
    (hothers : PartsInOrder b (others.map .guarded) c) (horelse : StmtsInOrder c orelse t.here)
    (ht : t.Settled) (hbody : (StmtPart.guarded first).Ordered)
    (hbodies : ∀ g ∈ others, (StmtPart.guarded g).Ordered) (hlast : ∀ st ∈ orelse, st.Ordered) :
    (Parse.chained t.last orelse first others).Ordered := by
  induction others generalizing first a b with
  | nil =>
    obtain ⟨-, d, -, hguarded⟩ := hfirst
    exact .intro (hguarded.append hothers horelse).inSequence
      (List.forall_mem_append.2 ⟨hbody, hlast⟩)
  | cons next others ih =>
    obtain ⟨-, d, -, hguarded⟩ := hfirst
    obtain ⟨e, hnext, hothers⟩ := hothers
    obtain ⟨hnextBody, hbodies⟩ := List.forall_mem_cons.1 hbodies
    have hrest := PartsInOrder.chained hnext hothers horelse ht
    refine .intro (hguarded.append le_rfl hrest).inSequence ?_
    exact List.forall_mem_append.2
      ⟨hbody, List.forall_mem_singleton.2 (ih hnext hothers hnextBody hbodies)⟩

/-- Every statement that is read is ordered. -/
theorem ReadsStmt.ordered {s t : TokenStream} {phrase : Phrase StmtPart}
    (h : ReadsStmt s phrase t) : s.IsSpaced → phrase.StmtOrdered := by
  induction h with
  | targetsEnd | targetsNext | decorator | newlineEnd | blockEnd | semicolonEnd =>
    exact fun _ => trivial
  | assign | annotated | annotatedAssign | augmentedAssign | expression | ret | retValue
  | skippedLine | decoratedClass | asyncFor | asyncWith | skipped =>
    exact fun _ => .of_stmts_eq_nil rfl
  | exprLine _ he _ ih => exact fun hs => ih (hs.onward he.onward)
  | lineLast _ _ ih => exact fun hs => List.forall_mem_singleton.2 (ih hs)
  | lineNext h h' _ ih _ ih' =>
    exact fun hs => List.forall_mem_cons.2 ⟨ih hs, ih' ((hs.onward h.onward).onward h'.onward)⟩
  | block _ _ _ _ _ ih => exact fun hs => ordered_of_map (ih hs.tail.tail.tail)
  | inline _ _ _ ih => exact fun hs => ih hs.tail
  | function _ _ _ hparameters _ hreturns h ih =>
    intro hs
    have ht := (hs.tail.tail.tail.onward hparameters.onward.next).onward hreturns.onward
    exact .intro (h.inOrder ht).inSequence (ih ht)
  | guarded _ he _ ih => exact fun hs => ih (hs.tail.onward he.onward)
  | functionStmt _ _ ih => exact ih
  | asyncFunction _ _ ih => exact fun hs => ih hs.tail
  | decorated _ h _ _ ih => exact fun hs => ih (hs.onward h.onward)
  | decoratedAsync _ h _ _ _ ih => exact fun hs => ih (hs.onward h.onward.next)
  -- the branches of a chain are nested, so that their order is that of one list of parts
  | branch hif h h' _ ih ih' =>
    intro hs
    have ht := hs.onward h.onward
    have hu := hs.settled (hif.trans_ne (by decide)) (h.takes_of_guarded.trans h'.onward)
    exact PartsInOrder.ordered_chained (h.inOrder hs)
      (h'.inOrder ht _ (here_le_start _) fun _ => le_rfl) (.nil le_rfl) hu (ih hs)
      (ordered_of_map (ih' ht)) (List.forall_mem_nil _)
  | branchElse hif h h' _ h'' ih ih' ih'' =>
    intro hs
    have ht := hs.onward h.onward
    have hu := ht.onward h'.onward
    have hv := hs.settled (hif.trans_ne (by decide))
      (h.takes_of_guarded.trans (h'.onward.trans (.tail h''.onward)))
    exact PartsInOrder.ordered_chained (h.inOrder hs)
      (h'.inOrder ht _ (here_le_start _) fun _ => le_rfl)
      ((h''.inOrder hu.tail).mono hu.here_le_start_tail le_rfl) hv (ih hs)
      (ordered_of_map (ih' ht)) (ih'' hu.tail)
  | lineStmt _ _ _ ih => exact ih
  | manyDone => exact fun _ => List.forall_mem_nil _
  | manyNext _ h _ ih ih' =>
    exact fun hs => List.forall_mem_cons.2 ⟨ih hs, ih' (hs.onward h.onward)⟩

/-! ## Between two places -/

/-- Nodes one after the other lie, up to a place between them, before the others. -/
theorem InOrder.of_append {ν : Type} {span : ν → Span} {Nested : ν → Prop} {a b : Position}
    {xs ys : List ν} (h : InOrder span Nested a (xs ++ ys) b) :
    ∃ c, InOrder span Nested a xs c ∧ InOrder span Nested c ys b := by
  induction xs generalizing a with
  | nil => exact ⟨a, .nil le_rfl, h⟩
  | cons n xs ih =>
    obtain ⟨⟨ha, hn, hbetween⟩, hnested⟩ := h
    obtain ⟨hfirst, hothers⟩ := List.forall_mem_cons.1 hnested
    obtain ⟨c, hxs, hys⟩ := ih ⟨hbetween, hothers⟩
    exact ⟨c, ⟨⟨ha, hn, hxs.between⟩, List.forall_mem_cons.2 ⟨hfirst, hxs.nested⟩⟩, hys⟩

/-- Statements in sequence between two places lie there one after the other. -/
theorem InSequence.between {body : List Stmt} {a b : Position} (h : InSequence body) (hab : a ≤ b)
    (hstart : ∀ st ∈ body.head?, a ≤ st.span.start)
    (hinside : ∀ st ∈ body, st.span.start ≤ st.span.stop ∧ st.span.stop ≤ b) :
    Between a (body.map Stmt.span) b := by
  induction body generalizing a with
  | nil => exact hab
  | cons st body ih =>
    obtain ⟨hnext, hbody⟩ := List.isChain_cons.1 h
    obtain ⟨⟨hspan, hstop⟩, hothers⟩ := List.forall_mem_cons.1 hinside
    exact ⟨hstart st rfl, hspan, ih hbody hstop hnext hothers⟩

namespace Stmt

/-- A statement encloses the expressions and statements that stand directly in it. -/
theorem Nested.encloses {st : Stmt} (h : st.Nested) :
    st.span.Encloses (st.exprs.map Expr.span ++ st.stmts.map Stmt.span) := by
  cases h with
  | intro hencloses => exact hencloses

/-- The statements directly inside a statement lie in it one after the other. -/
theorem Nested.inOrder {st : Stmt} (h : st.Nested) (hordered : st.Ordered) :
    StmtsInOrder st.span.start st.stmts st.span.stop := by
  cases hordered with
  | intro hsequence _ =>
    cases h with
    | intro hencloses _ _ hnested =>
      have hinside (d : Stmt) (hd : d ∈ st.stmts) :=
        hencloses.inside _ (List.mem_append_right _ (List.mem_map_of_mem hd))
      refine ⟨hsequence.between hencloses.ordered ?_ ?_, hnested⟩
      · exact fun d hd => (hinside d (List.mem_of_mem_head? hd)).1
      · exact fun d hd => ⟨(hnested d hd).encloses.ordered, (hinside d hd).2⟩

end Stmt

/-! ## The whole text -/

/-- The statements of a block follow each other, nested each in itself, and so do those inside each
of them. -/
theorem ordered_of_parse {code : String} {body : List Stmt} (h : parse code = .ok body) :
    ∃ stop, StmtsInOrder .start body stop ∧ ∀ st ∈ body, st.Ordered := by
  obtain ⟨tokens, htokenize, hparse⟩ := exists_tokens_of_parse h
  cases tokens with
  | nil =>
    cases hparse
    exact ⟨.start, .nil le_rfl, List.forall_mem_nil _⟩
  | cons first others =>
    obtain ⟨t, hreads⟩ := readsStmt_of_parseTokens hparse
    have hs := isSpaced_of_tokenize htokenize
    obtain ⟨stop, hbetween⟩ := between_of_tokenize htokenize
    have hbody := (hreads.inOrder hs _ (here_le_start _) fun _ => le_rfl).stmts
    refine ⟨t.here, hbody.mono (le_min ?_ ?_) le_rfl, ordered_of_map (hreads.ordered hs)⟩
    · exact hbetween.1.trans hbetween.2.1
    · exact hbetween.1

end NoteCheck.Code
