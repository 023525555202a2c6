/-
# The tokens that reading passes

Which tokens are passed while an expression or a statement is read. Expressions never pass the
words of forbidden statements, and pass `for` only inside brackets; statements do not either, as
long as none of them is passed over or assigns the result of an operation.
-/
import NoteCheck.Proofs.Grammar.Steps
import NoteCheck.Proofs.Grammar.StmtRules
import NoteCheck.Proofs.Purity.PureBlock

namespace NoteCheck.Code

namespace TokenKind

/-- A word or mark of a statement that no pure block may hold. -/
def isForbidden : TokenKind → Bool
  | .kwWhile | .kwTry | .kwExcept | .kwFinally | .kwWith | .kwAs | .kwClass | .kwImport
  | .kwGlobal | .kwNonlocal | .kwRaise | .kwPass | .kwBreak | .kwContinue | .kwDel | .kwAssert =>
    true
  | kind => kind.isAugmentedAssign

/-- A token that may stand anywhere in a pure block, and is no bracket. -/
def isPlain (kind : TokenKind) : Bool :=
  !kind.isForbidden && kind != .endOfFile && kind != .kwFor && !kind.opensGroup &&
    !kind.closesGroup

theorem isPlain_iff {kind : TokenKind} :
    kind.isPlain ↔ ¬kind.isForbidden ∧ kind ≠ .endOfFile ∧ kind ≠ .kwFor ∧
      ¬kind.opensGroup ∧ ¬kind.closesGroup := by
  simp [isPlain, and_assoc]

theorem depthAfter_of_isPlain {kind : TokenKind} (h : kind.isPlain) (depth : Nat) :
    kind.depthAfter depth = depth := by
  obtain ⟨-, -, -, hopen, hclose⟩ := isPlain_iff.1 h
  rw [depthAfter, if_neg hopen, if_neg hclose]

theorem isPlain_of_constant {kind : TokenKind} {value : Constant}
    (h : kind.opening? = some (.constant value)) : kind.isPlain := by
  unfold opening? at h
  split at h
  all_goals first | rfl | cases h

theorem isPlain_of_unary {kind : TokenKind} {op : UnaryOp}
    (h : kind.opening? = some (.unary op)) : kind.isPlain := by
  unfold opening? at h
  split at h
  all_goals first | rfl | cases h

theorem isPlain_of_binaryOp? {kind : TokenKind} {op : BinaryOp} (h : kind.binaryOp? = some op) :
    kind.isPlain := by
  unfold binaryOp? at h
  split at h
  all_goals first | rfl | cases h

theorem isPlain_of_compareOp? {kind : TokenKind} {op : CompareOp} (h : kind.compareOp? = some op) :
    kind.isPlain := by
  unfold compareOp? at h
  split at h
  all_goals first | rfl | cases h

theorem isPlain_of_boolean {kind : TokenKind} {op : BoolOp}
    (h : kind.continuation? = some (.boolean op)) : kind.isPlain := by
  cases kind <;> cases h <;> rfl

theorem of_opensGroup {kind : TokenKind} (h : kind.opensGroup) :
    ¬kind.isForbidden ∧ kind ≠ .endOfFile ∧ kind ≠ .kwFor := by
  unfold opensGroup at h
  split at h
  all_goals first | decide | cases h

theorem of_closesGroup {kind : TokenKind} (h : kind.closesGroup) :
    ¬kind.isForbidden ∧ kind ≠ .endOfFile ∧ kind ≠ .kwFor ∧ ¬kind.opensGroup := by
  unfold closesGroup at h
  split at h
  all_goals first | decide | cases h

end TokenKind

/-- Reading from one stream to another passes only tokens that a pure block may hold there. The
numbers are those of the open brackets. -/
inductive Passes : Nat → TokenStream → Nat → TokenStream → Prop
  | refl {d s} : Passes d s d s
  | next {d s d' t} : s.kind ≠ .endOfFile → ¬s.kind.isForbidden → (s.kind = .kwFor → 0 < d) →
      Passes (s.kind.depthAfter d) s.tail d' t → Passes d s d' t

namespace Passes

variable {d d' d'' : Nat} {s t u : TokenStream} {kind : TokenKind}

theorem trans (h : Passes d s d' t) (h' : Passes d' t d'' u) : Passes d s d'' u := by
  induction h with
  | refl => exact h'
  | next heof hforbidden hfor _ ih => exact .next heof hforbidden hfor (ih h')

theorem plain (h : s.kind.isPlain) (ht : Passes d s.tail d' t) : Passes d s d' t := by
  obtain ⟨hforbidden, heof, hfor, -⟩ := TokenKind.isPlain_iff.1 h
  refine .next heof hforbidden (absurd · hfor) ?_
  rwa [TokenKind.depthAfter_of_isPlain h]

/-- A token that is known. -/
theorem mark (h : s.kind = kind) (ht : Passes d s.tail d' t) (hkind : kind.isPlain := by rfl) :
    Passes d s d' t := by
  subst h
  exact plain hkind ht

/-- What stands between brackets is passed with one more bracket open. -/
theorem group {opening closing : TokenKind} (hopen : s.kind = opening)
    (ht : Passes (d + 1) s.tail (d + 1) t) (hclose : t.kind = closing)
    (hopening : opening.opensGroup := by rfl) (hclosing : closing.closesGroup := by rfl) :
    Passes d s d t.tail := by
  subst hopen hclose
  obtain ⟨hforbidden, heof, hfor⟩ := TokenKind.of_opensGroup hopening
  obtain ⟨hforbidden', heof', hfor', hopening'⟩ := TokenKind.of_closesGroup hclosing
  have hclose : Passes (d + 1) t d t.tail := by
    refine .next heof' hforbidden' (absurd · hfor') ?_
    rw [TokenKind.depthAfter, if_neg hopening', if_pos hclosing]
    exact .refl
  refine .next heof hforbidden (absurd · hfor) ?_
  rw [TokenKind.depthAfter, if_pos hopening]
  exact ht.trans hclose

/-- The first word of a clause is passed inside brackets. -/
theorem kwFor (hd : 0 < d) (h : s.kind = .kwFor) (ht : Passes d s.tail d' t) : Passes d s d' t := by
  refine .next (by rw [h]; decide) (by rw [h]; decide) (fun _ => hd) ?_
  rwa [h]

/-- A token that may be missing. -/
theorem skip (d : Nat) (hkind : kind.isPlain) : Passes d s d (s.skip kind) := by
  rw [TokenStream.skip]
  split
  · exact .plain (by rwa [‹s.kind = kind›]) .refl
  · exact .refl

end Passes

/-! ## Expressions -/

/-- A part that stands inside brackets only. -/
def ExprPart.inBrackets : ExprPart → Bool
  | .clause _ | .argument _ => true
  | _ => false

/-- A phrase that stands inside brackets only. -/
def Phrase.inBrackets : Phrase ExprPart → Bool
  | .one part => part.inBrackets
  | .many _ parts | .afterCommas _ parts | .untilClosed _ parts => parts.any ExprPart.inBrackets

theorem any_inBrackets_map {α : Type} {f : α → ExprPart} (h : ∀ a, (f a).inBrackets = false)
    (as : List α) : (as.map f).any ExprPart.inBrackets = false := by
  simp [h]

theorem inBrackets_cons {d : Nat} {part : ExprPart} {parts : List ExprPart}
    (hd : 0 < d ∨ (part :: parts).any ExprPart.inBrackets = false) :
    (0 < d ∨ part.inBrackets = false) ∧ (0 < d ∨ parts.any ExprPart.inBrackets = false) := by
  rw [List.any_cons, Bool.or_eq_false_iff] at hd
  exact or_and_left.1 hd

theorem isPlain_of_atLiteral {s : TokenStream} (h : s.atLiteral) : s.kind.isPlain := by
  rw [TokenStream.atLiteral, Bool.or_eq_true, decide_eq_true_eq, decide_eq_true_eq] at h
  obtain h | h := h
  · rw [h]
    rfl
  · rw [h]
    rfl

/-- Reading an expression passes only tokens that a pure block may hold, and closes all brackets
that it opens. -/
theorem ReadsExpr.passes {s t : TokenStream} {phrase : Phrase ExprPart} (h : ReadsExpr s phrase t)
    {d : Nat} (hd : 0 < d ∨ phrase.inBrackets = false) : Passes d s d t := by
  induction h generalizing d with
  | expr _ _ ih ih' | chainNext _ _ _ ih ih' => exact (ih (.inr rfl)).trans (ih' (.inr rfl))
  | chainEnd => exact .refl
  | single _ _ ih => exact ih (.inr rfl)
  | bareTuple _ _ _ ih ih' =>
    exact (ih (.inr rfl)).trans (ih' (.inr (any_inBrackets_map (fun _ => rfl) _)))
  | name h | number h => exact .mark h .refl
  | constant h => exact .plain (TokenKind.isPlain_of_constant h) .refl
  | strings h _ ih =>
    exact .plain (isPlain_of_atLiteral h) (ih (.inr (any_inBrackets_map (fun _ => rfl) _)))
  | unary h _ ih => exact .plain (TokenKind.isPlain_of_unary h) (ih (.inr rfl))
  | starred h _ ih | await h _ ih => exact .mark h (ih (.inr rfl))
  | yieldFrom h hfrom _ ih => exact .mark h (.mark hfrom (ih (.inr rfl)))
  | yieldValue h _ _ ih => exact .mark h (ih (.inr rfl))
  | yieldNothing h => exact .mark h .refl
  | lambda h _ hcolon _ ih ih' =>
    exact .mark h ((ih (.inr (any_inBrackets_map (fun _ => rfl) _))).trans
      (.mark hcolon (ih' (.inr rfl))))
  -- an opening bracket raises the depth, and its closing bracket lowers it again
  | unit hopen hclose | emptyList hopen hclose | emptyDict hopen hclose =>
    exact .group hopen .refl hclose
  | group hopen _ hclose ih => exact .group hopen (ih (.inr rfl)) hclose
  | tuple hopen _ _ _ hclose ih ih' =>
    exact .group hopen ((ih (.inr rfl)).trans (ih' (.inl d.succ_pos))) hclose
  | listDisplay hopen _ _ hclose ih ih' | setDisplay hopen _ _ hclose ih ih' =>
    exact .group hopen ((ih (.inr rfl)).trans (ih' (.inl d.succ_pos))) hclose
  | generator hopen _ _ _ hclose ih ih' | listComprehension hopen _ _ _ hclose ih ih'
  | setComprehension hopen _ _ _ hclose ih ih' =>
    exact .group hopen ((ih (.inr rfl)).trans (ih' (.inl d.succ_pos))) hclose
  | unpackedDict hopen _ _ hclose ih => exact .group hopen (ih (.inl d.succ_pos)) hclose
  | dictDisplay hopen _ hcolon _ _ hclose ih ih' ih'' =>
    refine .group hopen ((ih (.inr rfl)).trans (.mark hcolon ((ih' (.inr rfl)).trans ?_))) hclose
    exact (Passes.skip _ rfl).trans (ih'' (.inl d.succ_pos))
  | dictComprehension hopen _ hcolon _ _ _ hclose ih ih' ih'' =>
    exact .group hopen ((ih (.inr rfl)).trans (.mark hcolon ((ih' (.inr rfl)).trans
      (ih'' (.inl d.succ_pos))))) hclose
  | named h _ _ ih => exact .mark h (ih (.inr rfl))
  | conditional h _ helse _ ih ih' =>
    exact .mark h ((ih (.inr rfl)).trans (.mark helse (ih' (.inr rfl))))
  | boolean h _ ih => exact .plain (TokenKind.isPlain_of_boolean h) (ih (.inr rfl))
  | comparison _ _ ih ih' =>
    exact (ih (.inr rfl)).trans (ih' (.inr (any_inBrackets_map (fun _ => rfl) _)))
  | pow h _ ih => exact .mark h (ih (.inr rfl))
  | binary h _ _ ih => exact .plain (TokenKind.isPlain_of_binaryOp? h) (ih (.inr rfl))
  | call hopen _ hclose ih => exact .group hopen (ih (.inl d.succ_pos)) hclose
  | index hopen _ hclose ih => exact .group hopen (ih (.inr rfl)) hclose
  | indexTuple hopen _ _ _ hclose ih ih' =>
    exact .group hopen ((ih (.inr rfl)).trans (ih' (.inl d.succ_pos))) hclose
  | member hdot hname => exact .mark hdot (.mark hname .refl)
  | literal h => exact .plain (isPlain_of_atLiteral h) .refl
  | afterNothing => exact .refl
  | after hmark h _ ih =>
    have hplain : ∀ mark ∈ [.colon, .assign, .arrow], TokenKind.isPlain mark := by decide
    exact .plain (hplain _ (h ▸ hmark)) (ih (.inr rfl))
  | varArgs h hname | varKeyword h hname => exact .mark h (.mark hname .refl)
  | keywordOnlyMarker h | positionalOnlyMarker h | positional h => exact .mark h .refl
  | parameter _ _ _ ih ih' ih'' =>
    exact (ih (.inr rfl)).trans ((ih' (.inr rfl)).trans (ih'' (.inr rfl)))
  | lambdaParameter _ _ ih ih' => exact (ih (.inr rfl)).trans (ih' (.inr rfl))
  -- `for` is refused at depth 0, so that a clause is passed only inside brackets
  | clause hfor _ hin _ _ ih ih' ih'' =>
    have hd : 0 < d := hd.resolve_right nofun
    exact .kwFor hd hfor ((ih (.inl hd)).trans (.mark hin ((ih' (.inl hd)).trans (ih'' (.inl hd)))))
  | asyncClause hasync hfor _ hin _ _ ih ih' ih'' =>
    have hd : 0 < d := hd.resolve_right nofun
    exact .mark hasync (.kwFor hd hfor ((ih (.inl hd)).trans
      (.mark hin ((ih' (.inl hd)).trans (ih'' (.inl hd))))))
  | filter h _ ih | unpackedEntry h _ ih | unpackedArgument h _ ih => exact .mark h (ih (.inr rfl))
  | dictEntry _ hcolon _ ih ih' => exact (ih (.inr rfl)).trans (.mark hcolon (ih' (.inr rfl)))
  | compareOp h => exact .plain (TokenKind.isPlain_of_compareOp? h) .refl
  | notIn h hin => exact .mark h (.mark hin .refl)
  | isNot h hnot =>
    have hkind := TokenStream.kind_tail_of_peek (by rw [h]; decide) (by decide) hnot
    exact .mark h (.mark hkind .refl)
  | is h => exact .mark h .refl
  | link _ _ ih ih' => exact (ih (.inr rfl)).trans (ih' (.inr rfl))
  | keywordArgument h _ ih =>
    simp only [TokenStream.atKeyword, Bool.and_eq_true, decide_eq_true_eq] at h
    have hkind := TokenStream.kind_tail_of_peek (by rw [h.1]; decide) (by decide) h.2
    exact .mark h.1 (.mark hkind (ih (.inr rfl)))
  | generatorArgument _ _ _ _ ih ih' =>
    have hd : 0 < d := hd.resolve_right nofun
    exact (ih (.inr rfl)).trans (ih' (.inl hd))
  | argument _ _ _ ih => exact ih (.inr rfl)
  | unbounded => exact .refl
  | sliceBound _ _ ih => exact ih (.inr rfl)
  | slice h _ _ ih => exact .mark h (ih (.inr rfl))
  | steppedSlice h _ hcolon _ ih ih' =>
    exact .mark h ((ih (.inr rfl)).trans (.mark hcolon (ih' (.inr rfl))))
  | sliceItem _ _ ih => exact ih (.inr rfl)
  | boundedSliceItem _ _ _ ih ih' => exact (ih (.inr rfl)).trans (ih' (.inr rfl))
  | subscriptItem _ _ ih => exact ih (.inr rfl)
  -- a list of phrases asks for brackets when one of its phrases does
  | manyDone | commasDone | closedDone => exact .refl
  | commasLast hcomma => exact .mark hcomma .refl
  | manyNext _ _ _ ih ih' =>
    obtain ⟨hpart, hparts⟩ := inBrackets_cons hd
    exact (ih hpart).trans (ih' hparts)
  | commasNext hcomma _ _ _ ih ih' =>
    obtain ⟨hpart, hparts⟩ := inBrackets_cons hd
    exact .mark hcomma ((ih hpart).trans (ih' hparts))
  | closedLast _ _ _ ih => exact ih (inBrackets_cons hd).1
  | closedNext _ _ hcomma _ ih ih' =>
    obtain ⟨hpart, hparts⟩ := inBrackets_cons hd
    exact (ih hpart).trans (.mark hcomma (ih' hparts))

/-! ## Statements -/

/-- A statement that is read in full, with all that stand in it, and in which no operation is
assigned. -/
inductive Stmt.Harmless : Stmt → Prop
  | function {s name parameters returns decorators isAsync body} : (∀ st ∈ body, Harmless st) →
      Harmless (.function s name parameters returns decorators isAsync body)
  | assign {s targets value} : Harmless (.assign s targets value)
  | annotatedAssign {s target annotation value} :
      Harmless (.annotatedAssign s target annotation value)
  | ret {s value} : Harmless (.ret s value)
  | branch {s test body orelse} : (∀ st ∈ body, Harmless st) → (∀ st ∈ orelse, Harmless st) →
      Harmless (.branch s test body orelse)
  | expression {s value} : Harmless (.expression s value)

/-- A part of which all statements are harmless. -/
def StmtPart.Harmless : StmtPart → Prop
  | .targets .. | .lineEnd _ | .decorator _ => True
  | .afterExpr _ st | .line st | .function _ _ _ st | .stmt st => st.Harmless
  | .lineOf body | .suite body => ∀ st ∈ body, st.Harmless
  | .guarded g => ∀ st ∈ g.body, st.Harmless

/-- A phrase of which all statements are harmless. -/
def Phrase.Harmless : Phrase StmtPart → Prop
  | .one part => part.Harmless
  | .many _ parts | .afterCommas _ parts | .untilClosed _ parts => ∀ part ∈ parts, part.Harmless

open Parse (Guarded chained)

/-- A chain of conditions is harmless if all that they guard is. -/
theorem harmless_of_chained {stop : Span} {orelse : List Stmt} {first : Guarded}
    {others : List Guarded} (h : (chained stop orelse first others).Harmless) :
    (∀ st ∈ first.body, st.Harmless) ∧ (∀ g ∈ others, ∀ st ∈ g.body, st.Harmless) ∧
      ∀ st ∈ orelse, st.Harmless := by
  induction others generalizing first with
  | nil =>
    rw [chained] at h
    cases h with
    | branch hbody horelse => exact ⟨hbody, nofun, horelse⟩
  | cons next others ih =>
    rw [chained] at h
    cases h with
    | branch hbody hrest =>
      obtain ⟨hnext, hothers, horelse⟩ := ih (hrest _ List.mem_cons_self)
      exact ⟨hbody, List.forall_mem_cons.2 ⟨hnext, hothers⟩, horelse⟩

/-- Reading harmless statements passes only tokens that a pure block may hold. -/
theorem ReadsStmt.passes {s t : TokenStream} {phrase : Phrase StmtPart} (h : ReadsStmt s phrase t)
    (hphrase : phrase.Harmless) : Passes 0 s 0 t := by
  induction h with
  | targetsEnd => exact .refl
  | targetsNext h he _ ih => exact .mark h ((he.passes (.inr rfl)).trans (ih trivial))
  | assign h he _ ih => exact .mark h ((he.passes (.inr rfl)).trans (ih trivial))
  | annotated h he => exact .mark h (he.passes (.inr rfl))
  | annotatedAssign h he hassign he' =>
    exact .mark h ((he.passes (.inr rfl)).trans (.mark hassign (he'.passes (.inr rfl))))
  -- forms that are not harmless are excluded by the hypothesis
  | augmentedAssign => cases hphrase
  | expression => exact .refl
  | ret h => exact .mark h .refl
  | retValue h _ he => exact .mark h (he.passes (.inr rfl))
  | skippedLine => cases hphrase
  | exprLine _ he _ ih => exact (he.passes (.inr rfl)).trans (ih hphrase)
  | newlineEnd h => exact (Passes.skip 0 rfl).trans (.mark h .refl)
  | blockEnd => exact .skip 0 rfl
  | semicolonEnd h => exact .mark h .refl
  | lineLast _ _ ih ih' =>
    exact (ih (hphrase _ List.mem_cons_self)).trans (ih' trivial)
  | lineNext _ _ _ ih ih' ih'' =>
    obtain ⟨hst, hothers⟩ := List.forall_mem_cons.1 hphrase
    exact (ih hst).trans ((ih' trivial).trans (ih'' hothers))
  -- a block stands between marks that are plain, so that the depth is 0 in it too
  | block hcolon hnewline hindent _ hdedent ih =>
    refine .mark hcolon (.mark hnewline (.mark hindent ((ih ?_).trans (.mark hdedent .refl))))
    exact List.forall_mem_map.2 hphrase
  | inline hcolon _ _ ih => exact .mark hcolon (ih hphrase)
  | function hdef hname hopen hps hclose hreturns _ ih =>
    cases hphrase with
    | function hbody =>
      refine .mark hdef (.mark hname (.trans (.group hopen (hps.passes (.inl Nat.one_pos)) hclose)
        ((hreturns.passes (.inr rfl)).trans (ih hbody))))
  | decorator hat he hnewline =>
    exact .mark hat ((he.passes (.inr rfl)).trans (.mark hnewline .refl))
  | guarded h he _ ih =>
    have hrest := (he.passes (.inr rfl)).trans (ih hphrase)
    obtain h | h := h
    · exact .mark h hrest
    · exact .mark h hrest
  | functionStmt _ _ ih => exact ih hphrase
  | asyncFunction hasync _ ih => exact .mark hasync (ih hphrase)
  | decorated _ _ _ ih ih' =>
    have hdecorators := ih (List.forall_mem_map.2 fun _ _ => trivial)
    exact hdecorators.trans (ih' hphrase)
  | decoratedAsync _ _ hasync _ ih ih' =>
    have hdecorators := ih (List.forall_mem_map.2 fun _ _ => trivial)
    exact hdecorators.trans (.mark hasync (ih' hphrase))
  | decoratedClass | asyncFor | asyncWith | skipped => cases hphrase
  | branch _ _ _ _ ih ih' =>
    obtain ⟨hfirst, hothers, -⟩ := harmless_of_chained hphrase
    exact (ih hfirst).trans (ih' (List.forall_mem_map.2 hothers))
  | branchElse _ _ _ helse _ ih ih' ih'' =>
    obtain ⟨hfirst, hothers, horelse⟩ := harmless_of_chained hphrase
    have hrest := (ih' (List.forall_mem_map.2 hothers)).trans (.mark helse (ih'' horelse))
    exact (ih hfirst).trans hrest
  | lineStmt _ _ _ ih ih' => exact (ih hphrase).trans (ih' trivial)
  | manyDone => exact .refl
  | manyNext _ _ _ ih ih' =>
    obtain ⟨hpart, hparts⟩ := List.forall_mem_cons.1 hphrase
    exact (ih hpart).trans (ih' hparts)

end NoteCheck.Code
