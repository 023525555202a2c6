/-
# The shape of statements

What holds of the shape of all statements of a block, at every depth, together with the expressions
inside them. Bodies are not empty because of the layout: a block that begins does not end at once.
The main statement, `wellFormed_of_parse`, is about all texts that can be read.
-/
import NoteCheck.Proofs.Grammar.Shape
import NoteCheck.Proofs.Grammar.StmtSound
import NoteCheck.Proofs.Layout.Structure

namespace NoteCheck.Code

/-! ## Well-formed statements -/

/-- Only a statement of the form itself is described as the form is. -/
def SkippedForm.IsApart (form : SkippedForm) : Prop :=
  ∀ st : Stmt, st.describe = form.describe → ∃ s, st = .skipped s form

/-- No statement that is read in full has the form of one that is passed over. -/
theorem SkippedForm.isApart (form : SkippedForm) : form.IsApart := by
  intro st h
  cases st with
  | skipped s other =>
    refine ⟨s, congrArg (Stmt.skipped s) ?_⟩
    cases other <;> cases form <;> first | rfl | simp [Stmt.describe, describe] at h
  | function _ _ _ _ _ isAsync =>
    cases isAsync <;> cases form <;> simp [Stmt.describe, describe] at h
  | _ => cases form <;> simp [Stmt.describe, describe] at h

namespace Stmt

/-- The form of a statement, apart from the expressions and statements inside it. -/
def IsShaped : Stmt → Prop
  | function _ _ parameters _ _ _ body => (∀ p ∈ parameters, Parameter.IsNamed p) ∧ body ≠ []
  | assign _ targets _ => targets ≠ []
  | branch _ _ body _ => body ≠ []
  | skipped _ form => form.IsApart
  | _ => True

/-- At every depth a statement has its form, and the expressions inside it are well-formed. -/
inductive WellFormed : Stmt → Prop
  | intro {st} : st.IsShaped → (∀ e ∈ st.exprs, e.WellFormed .plain) →
      (∀ d ∈ st.stmts, WellFormed d) → WellFormed st

/-- What is assigned or returned in a well-formed statement, at any depth, is well-formed. -/
theorem WellFormed.value {st : Stmt} (h : st.WellFormed) {e : Expr} (he : st.Value e) :
    e.WellFormed .plain := by
  induction he with
  | assign | augmentedAssign | annotatedAssign | ret =>
    cases h with
    | intro _ hexprs _ => exact hexprs _ (by simp [exprs])
  | function hst _ ih =>
    cases h with
    | intro _ _ hstmts => exact ih (hstmts _ hst)
  | body hst _ ih =>
    cases h with
    | intro _ _ hstmts => exact ih (hstmts _ (List.mem_append_left _ hst))
  | orelse hst _ ih =>
    cases h with
    | intro _ _ hstmts => exact ih (hstmts _ (List.mem_append_right _ hst))

/-- A body that is not empty, of well-formed statements. -/
def WellFormedBody (body : List Stmt) : Prop := body ≠ [] ∧ ∀ st ∈ body, st.WellFormed

end Stmt

open Stmt (WellFormed WellFormedBody)

/-! ## What is read -/

/-- What holds of a part that is read, given that it holds of what stood there before. -/
def StmtPart.WellFormed : StmtPart → Prop
  | .targets before value all last =>
    (∀ e ∈ before, e.WellFormed .plain) → value.WellFormed .plain →
      (∀ e ∈ all, e.WellFormed .plain) ∧ last.WellFormed .plain ∧ (before ≠ [] → all ≠ [])
  | .afterExpr first st => first.WellFormed .plain → st.WellFormed
  | .line st | .stmt st => st.WellFormed
  | .lineEnd _ => True
  | .lineOf body | .suite body => WellFormedBody body
  | .function _ decorators _ st => (∀ e ∈ decorators, e.WellFormed .plain) → st.WellFormed
  | .decorator e => e.WellFormed .plain
  | .guarded g => g.test.WellFormed .plain ∧ WellFormedBody g.body

/-- What holds of all parts of a phrase. -/
def Phrase.WellFormedStmt : Phrase StmtPart → Prop
  | .one part => part.WellFormed
  | .many _ parts | .afterCommas _ parts | .untilClosed _ parts =>
    ∀ part ∈ parts, part.WellFormed

/-- What is read as parts of one kind has the shape that those parts have. -/
theorem wellFormedStmt_of_map {α : Type} {f : α → StmtPart} {as : List α}
    (h : ∀ part ∈ as.map f, part.WellFormed) : ∀ a ∈ as, (f a).WellFormed :=
  List.forall_mem_map.1 h

/-- A chain of conditions is well-formed if each condition and what it guards are, and the else
part. -/
theorem wellFormed_chained {stop : Span} {orelse : List Stmt} {first : Parse.Guarded}
    {others : List Parse.Guarded} (hfirst : (StmtPart.guarded first).WellFormed)
    (hothers : ∀ g ∈ others, (StmtPart.guarded g).WellFormed)
    (horelse : ∀ st ∈ orelse, st.WellFormed) :
    (Parse.chained stop orelse first others).WellFormed := by
  induction others generalizing first with
  | nil =>
    obtain ⟨htest, hne, hbody⟩ := hfirst
    exact .intro hne (List.forall_mem_singleton.2 htest) (List.forall_mem_append.2 ⟨hbody, horelse⟩)
  | cons next others ih =>
    obtain ⟨htest, hne, hbody⟩ := hfirst
    obtain ⟨hnext, hothers⟩ := List.forall_mem_cons.1 hothers
    refine .intro hne (List.forall_mem_singleton.2 htest) (List.forall_mem_append.2 ⟨hbody, ?_⟩)
    exact List.forall_mem_singleton.2 (ih hnext hothers)

/-- What the shape of statements takes from the tokens: names have letters, and kinds in a row may
follow each other. -/
structure TokenStream.IsRegular (s : TokenStream) : Prop where
  named : s.IsNamed
  next : (kindsOf s.tokens).IsChain TokenKind.MayPrecede

namespace TokenStream.IsRegular

variable {s t : TokenStream}

/-- A later stream of a regular one is regular. -/
theorem onward (hs : s.IsRegular) (h : s.Onward t) : t.IsRegular where
  named := hs.named.onward h
  next := hs.next.suffix (h.suffix.map _)

/-- The rest of a regular stream is regular. -/
theorem tail (hs : s.IsRegular) : s.tail.IsRegular := hs.onward .single

/-- After the mark that begins a block, the block goes on. -/
theorem inBlock (hs : s.IsRegular) (h : s.kind = .indent) : s.tail.inBlock := by
  unfold TokenStream.tail TokenStream.inBlock
  split
  · rename_i hkind
    exact absurd (h.symm.trans hkind) (by decide)
  · rw [h]
    decide
  · rename_i next ahead hahead _
    have hchain := hs.next
    rw [tokens, hahead] at hchain
    have hnext := ((List.isChain_cons_cons.1 hchain).1).inhabited h
    simpa [kind] using hnext

end TokenStream.IsRegular

/-- Every statement that is read is well-formed. -/
theorem ReadsStmt.wellFormed {s t : TokenStream} {phrase : Phrase StmtPart}
    (h : ReadsStmt s phrase t) : s.IsRegular → phrase.WellFormedStmt := by
  induction h with
  -- `before` holds the targets so far, and the value that is read last is no target
  | targetsEnd => exact fun _ hbefore hvalue => ⟨hbefore, hvalue, id⟩
  | targetsNext _ he _ ih =>
    intro hs hbefore hvalue
    obtain ⟨hall, hlast, hne⟩ := ih (hs.tail.onward he.onward)
      (List.forall_mem_append.2 ⟨hbefore, List.forall_mem_singleton.2 hvalue⟩)
      (he.wellFormed hs.tail.named)
    exact ⟨hall, hlast, fun _ => hne (by simp)⟩
  | assign _ he _ ih =>
    intro hs hfirst
    obtain ⟨hall, hlast, hne⟩ := ih (hs.tail.onward he.onward)
      (List.forall_mem_singleton.2 hfirst) (he.wellFormed hs.tail.named)
    refine .intro (hne (List.cons_ne_nil _ _)) ?_ (List.forall_mem_nil _)
    exact List.forall_mem_append.2 ⟨hall, List.forall_mem_singleton.2 hlast⟩
  | annotated _ htype _ =>
    exact fun hs hfirst => .intro trivial (List.forall_mem_cons.2
      ⟨hfirst, List.forall_mem_singleton.2 (htype.wellFormed hs.tail.named)⟩)
        (List.forall_mem_nil _)
  | annotatedAssign _ htype _ he =>
    intro hs hfirst
    have hvalue := he.wellFormed (hs.tail.onward htype.onward.next).named
    exact .intro trivial (List.forall_mem_cons.2 ⟨hfirst, List.forall_mem_cons.2
      ⟨htype.wellFormed hs.tail.named, List.forall_mem_singleton.2 hvalue⟩⟩) (List.forall_mem_nil _)
  | augmentedAssign _ he =>
    exact fun hs hfirst => .intro trivial (List.forall_mem_cons.2
      ⟨hfirst, List.forall_mem_singleton.2 (he.wellFormed hs.tail.named)⟩) (List.forall_mem_nil _)
  | expression =>
    exact fun _ hfirst =>
      .intro trivial (List.forall_mem_singleton.2 hfirst) (List.forall_mem_nil _)
  | ret => exact fun _ => .intro trivial (List.forall_mem_nil _) (List.forall_mem_nil _)
  | retValue _ _ he =>
    exact fun hs => .intro trivial (List.forall_mem_singleton.2 (he.wellFormed hs.tail.named))
      (List.forall_mem_nil _)
  | skippedLine | decoratedClass | asyncFor | asyncWith | skipped =>
    exact fun _ => .intro (SkippedForm.isApart _) (List.forall_mem_nil _) (List.forall_mem_nil _)
  | exprLine _ he _ ih => exact fun hs => ih (hs.onward he.onward) (he.wellFormed hs.named)
  | newlineEnd | blockEnd | semicolonEnd => exact fun _ => trivial
  | lineLast _ _ ih => exact fun hs => ⟨List.cons_ne_nil _ _, List.forall_mem_singleton.2 (ih hs)⟩
  | lineNext h h' _ ih _ ih' =>
    intro hs
    have hothers := (ih' ((hs.onward h.onward).onward h'.onward)).2
    exact ⟨List.cons_ne_nil _ _, List.forall_mem_cons.2 ⟨ih hs, hothers⟩⟩
  -- a block is not empty: behind its indentation stands a token that is no end of a block
  | block _ _ hindent h _ ih =>
    intro hs
    refine ⟨?_, wellFormedStmt_of_map (ih hs.tail.tail.tail)⟩
    rintro rfl
    cases h with
    | manyDone hdone => exact absurd (hs.tail.tail.inBlock hindent) (by rw [hdone]; decide)
  | inline _ _ _ ih => exact fun hs => ih hs.tail
  | function _ _ _ hparameters _ hreturns _ ih =>
    intro hs hdecorators
    have hs := hs.tail.tail.tail
    have hparts := wellFormed_of_map (hparameters.wellFormed hs.named)
    have ht := hs.onward hparameters.onward.next
    obtain ⟨hne, hbody⟩ := ih (ht.onward hreturns.onward)
    refine .intro ⟨fun p hp => (hparts p hp).2.1, hne⟩ ?_ hbody
    rw [Stmt.exprs, List.forall_mem_append, List.forall_mem_append, List.forall_mem_flatMap]
    exact ⟨⟨hdecorators, fun p hp => (hparts p hp).1⟩,
      fun d hd => hreturns.wellFormed ht.named d (Option.mem_toList.1 hd)⟩
  | decorator _ he => exact fun hs => he.wellFormed hs.tail.named
  | guarded _ he _ ih =>
    exact fun hs => ⟨he.wellFormed hs.tail.named, ih (hs.tail.onward he.onward)⟩
  | functionStmt _ _ ih => exact fun hs => ih hs (List.forall_mem_nil _)
  | asyncFunction _ _ ih => exact fun hs => ih hs.tail (List.forall_mem_nil _)
  | decorated _ h _ ih ih' =>
    exact fun hs => ih' (hs.onward h.onward) (wellFormedStmt_of_map (ih hs))
  | decoratedAsync _ h _ _ ih ih' =>
    exact fun hs => ih' (hs.onward h.onward.next) (wellFormedStmt_of_map (ih hs))
  | branch _ h h' _ ih ih' =>
    exact fun hs => wellFormed_chained (ih hs) (wellFormedStmt_of_map (ih' (hs.onward h.onward)))
      (List.forall_mem_nil _)
  | branchElse _ h h' _ _ ih ih' ih'' =>
    intro hs
    have ht := hs.onward h.onward
    exact wellFormed_chained (ih hs) (wellFormedStmt_of_map (ih' ht))
      (ih'' (ht.onward h'.onward.next)).2
  | lineStmt _ _ _ ih => exact ih
  | manyDone => exact fun _ => List.forall_mem_nil _
  | manyNext _ h _ ih ih' =>
    exact fun hs => List.forall_mem_cons.2 ⟨ih hs, ih' (hs.onward h.onward)⟩

/-! ## The whole text -/

/-- The names in a text have letters. -/
theorem isNamed_of_tokenize {code : String} {tokens : List Token}
    (h : tokenize code = .ok tokens) : ∀ a ∈ tokens, a.kind = .identifier → a.text ≠ "" := by
  obtain ⟨found, closing, places, rfl, ⟨lineEnd, n, hlineEnd, hkinds, -⟩, -, hreads, hplaces, -⟩ :=
    isCovered_of_tokenize h
  intro a ha hkind
  rcases List.mem_append.1 ha with ha | ha
  · have hplaced : a ∈ placed found := List.mem_filter.2 ⟨ha, by rw [hkind]; rfl⟩
    obtain ⟨i, hi, rfl⟩ := List.getElem_of_mem hplaced
    obtain ⟨hlength, hstands⟩ := List.forall₂_iff_get.1 hreads
    have hi' : i < places.length := by rwa [← hlength]
    have hpiece := (hplaces places[i] (List.getElem_mem hi')).1
    obtain ⟨htext | ⟨hnewline, -⟩, -⟩ := hstands i hi hi'
    · intro hempty
      have hnil : places[i].piece = [] := String.ofList_eq_empty_iff.1 (htext.symm.trans hempty)
      rw [Place.start, Place.stop, hnil, byteLength_nil] at hpiece
      omega
    · exact absurd (hkind.symm.trans hnewline) (by decide)
  · have hmem : a.kind ∈ closing.map (·.kind) := List.mem_map_of_mem ha
    rw [hkinds, hkind] at hmem
    obtain rfl | rfl := hlineEnd
    · simp at hmem
    · simp at hmem

/-- The tokens of a code make a regular stream. -/
theorem isRegular_of_tokenize {code : String} {first : Token} {others : List Token}
    (h : tokenize code = .ok (first :: others)) :
    (TokenStream.ofTokens first others).IsRegular where
  named := isNamed_of_tokenize h
  next := (Reader.isLaidOut_of_tokens h).next

/-- The statements that are read of the tokens of a text are well-formed. -/
theorem wellFormed_of_parseTokens {code : String} {tokens : List Token} {body : List Stmt}
    (htokenize : tokenize code = .ok tokens) (h : parseTokens tokens = .ok body) :
    ∀ st ∈ body, st.WellFormed := by
  cases tokens with
  | nil =>
    cases h
    exact List.forall_mem_nil _
  | cons first others =>
    obtain ⟨t, hreads⟩ := readsStmt_of_parseTokens h
    exact wellFormedStmt_of_map (hreads.wellFormed (isRegular_of_tokenize htokenize))

/-- The statements of a block are well-formed, at every depth. -/
theorem wellFormed_of_parse {code : String} {body : List Stmt} (h : parse code = .ok body) :
    ∀ st ∈ body, st.WellFormed := by
  obtain ⟨tokens, htokenize, hparse⟩ := exists_tokens_of_parse h
  exact wellFormed_of_parseTokens htokenize hparse

/-- A block with slices in an index, a chain of comparisons and conditions, a lambda, an assignment
in a condition, and a statement that is passed over. -/
theorem wellFormed_of_parse_block :
    ∃ body, parse
      ("def f(xs, *, k=0):\n  return \x7bx for x in xs if 0 < x <= k and x or k\x7d\n" ++
        "if (n := a[1:2, b]):\n  g = lambda *, x=1: a[::2]\nelse:\n  pass\n") = .ok body ∧
      ∀ st ∈ body, st.WellFormed :=
  (Results.exists_of_isOk (by decide +kernel)).imp fun body hparse =>
    ⟨hparse, wellFormed_of_parse hparse⟩

end NoteCheck.Code
