/-
# Expressions inside expressions

The parts of the text that expressions take: an expression inside another one lies inside it, and
no two that stand directly in one expression overlap. The main statement, `ReadsExpr.inOrder`, is
one induction over the rules, for streams whose tokens lie one after the other.
-/
import NoteCheck.Proofs.Grammar.Onward
import NoteCheck.Proofs.Grammar.Parts
import NoteCheck.Proofs.Layout.Order

namespace NoteCheck.Code

/-! ## Parts of a text -/

namespace Span

/-- Two parts of a text have nothing in common; they may touch. -/
def Apart (s t : Span) : Prop := s.stop ≤ t.start ∨ t.stop ≤ s.start

/-- A part of a text ends where it begins or further on, and there are parts inside it, no two of
which overlap. -/
structure Encloses (s : Span) (inner : List Span) : Prop where
  ordered : s.start ≤ s.stop
  inside : ∀ t ∈ inner, s.start ≤ t.start ∧ t.stop ≤ s.stop
  apart : inner.Pairwise Apart

/-- What is enclosed may be listed in any order. -/
theorem Encloses.perm {s : Span} {xs ys : List Span} (h : s.Encloses xs) (hperm : xs.Perm ys) :
    s.Encloses ys where
  ordered := h.ordered
  inside t ht := h.inside t (hperm.mem_iff.2 ht)
  apart := hperm.pairwise h.apart fun hst => hst.symm

/-- A part after all others inside goes to them where more is enclosed. -/
theorem Encloses.concat {s t : Span} {b : Position} {xs : List Span} (h : s.Encloses xs)
    (hst : s.stop ≤ t.start) (ht : t.start ≤ t.stop) (hb : t.stop ≤ b) :
    (⟨s.start, b⟩ : Span).Encloses (xs ++ [t]) where
  ordered := h.ordered.trans (hst.trans (ht.trans hb))
  inside := by
    refine List.forall_mem_append.2 ⟨fun r hr => ?_, List.forall_mem_singleton.2 ?_⟩
    · obtain ⟨hstart, hstop⟩ := h.inside r hr
      exact ⟨hstart, (hstop.trans hst).trans (ht.trans hb)⟩
    · exact ⟨h.ordered.trans hst, hb⟩
  apart := by
    refine List.pairwise_append.2 ⟨h.apart, List.pairwise_singleton .., fun r hr => ?_⟩
    exact List.forall_mem_singleton.2 (.inl ((h.inside r hr).2.trans hst))

end Span

/-- Parts that lie one after the other between two places are enclosed by what lies between them. -/
theorem Between.encloses {a b : Position} {spans : List Span} (h : Between a spans b) :
    (⟨a, b⟩ : Span).Encloses spans := by
  induction spans generalizing a with
  | nil => exact ⟨h, nofun, .nil⟩
  | cons s spans ih =>
    obtain ⟨ha, hs, hspans⟩ := h
    have hrest := ih hspans
    refine ⟨ha.trans (hs.trans hrest.ordered), ?_, .cons ?_ hrest.apart⟩
    · refine List.forall_mem_cons.2 ⟨⟨ha, hrest.ordered⟩, fun t ht => ?_⟩
      obtain ⟨hstart, hstop⟩ := hrest.inside t ht
      exact ⟨(ha.trans hs).trans hstart, hstop⟩
    · exact fun t ht => .inl (hrest.inside t ht).1

/-- Nodes that lie between two places one after the other, and are nested each in itself. -/
structure InOrder {ν : Type} (span : ν → Span) (Nested : ν → Prop) (a : Position) (nodes : List ν)
    (b : Position) : Prop where
  between : Between a (nodes.map span) b
  nested : ∀ n ∈ nodes, Nested n

namespace InOrder

variable {ν : Type} {span : ν → Span} {Nested : ν → Prop} {a b c d : Position} {n : ν}
  {xs ys : List ν}

/-- Without nodes only the places have to be in order. -/
theorem nil (h : a ≤ b) : InOrder span Nested a [] b := ⟨h, nofun⟩

/-- Nodes that lie between two places lie between places further out. -/
theorem mono (h : InOrder span Nested a xs b) (ha : c ≤ a) (hb : b ≤ d) :
    InOrder span Nested c xs d :=
  ⟨h.between.mono ha hb, h.nested⟩

/-- Two lists of nodes that lie one after the other make one. -/
theorem append (h : InOrder span Nested a xs b) (hbc : b ≤ c) (h' : InOrder span Nested c ys d) :
    InOrder span Nested a (xs ++ ys) d where
  between := by
    rw [List.map_append]
    exact h.between.append hbc h'.between
  nested := List.forall_mem_append.2 ⟨h.nested, h'.nested⟩

/-- What begins with a node begins where the node does. -/
theorem head (h : InOrder span Nested a (n :: xs) b) :
    a ≤ (span n).start ∧ InOrder span Nested (span n).start (n :: xs) b :=
  ⟨h.between.1, ⟨le_rfl, h.between.2⟩, h.nested⟩

end InOrder

/-- In an expression and in all expressions inside it, those that stand directly inside lie in it
and do not overlap. -/
inductive Expr.Nested : Expr → Prop
  | intro {e} : e.span.Encloses (e.parts.map Expr.span) → (∀ d ∈ e.parts, Nested d) → Nested e

/-- Nested expressions that lie between two places one after the other. -/
abbrev ExprsInOrder := InOrder Expr.span Expr.Nested

/-! ## Streams in order -/

namespace TokenStream

/-- What has been read of a stream ends before what is left of it begins. -/
def Settled (s : TokenStream) : Prop := s.last.stop ≤ s.current.span.start

/-- The place up to which a stream has been read. Of a stream at the first of its tokens nothing
has been read. -/
def here (s : TokenStream) : Position := min s.last.stop s.current.span.start

/-- The tokens of a stream lie one after the other, and end with the end of the text. -/
structure IsSpaced (s : TokenStream) : Prop where
  between : ∃ stop, Between s.current.span.start (s.tokens.map Token.span) stop
  ends : ∀ a ∈ s.tokens.getLast?, a.kind = .endOfFile

variable {s t : TokenStream}

/-- A settled stream stands where the last token ended. -/
theorem Settled.here_eq (h : s.Settled) : s.here = s.last.stop := min_eq_left h

/-- A stream stands no further than where its current token begins. -/
theorem here_le_start (s : TokenStream) : s.here ≤ s.current.span.start := min_le_right _ _

namespace IsSpaced

/-- Before the end the rest of a stream begins with the token ahead. -/
theorem tail_eq (hs : s.IsSpaced) (hkind : s.kind ≠ .endOfFile) :
    ∃ next ahead, s.ahead = next :: ahead ∧ s.tail = ⟨s.current.span, next, ahead⟩ := by
  cases hahead : s.ahead with
  | nil => exact absurd (hs.ends s.current (by rw [tokens, hahead]; rfl)) hkind
  | cons next ahead => exact ⟨next, ahead, rfl, tail_eq_of_ahead hkind hahead⟩

/-- Where there is a token it does not end before it begins, and the next one begins after it. -/
theorem next (hs : s.IsSpaced) (hkind : s.kind ≠ .endOfFile) :
    s.current.span.start ≤ s.tail.last.stop ∧ s.tail.Settled ∧ s.tail.IsSpaced := by
  obtain ⟨next, ahead, hahead, htail⟩ := hs.tail_eq hkind
  obtain ⟨stop, hbetween⟩ := hs.between
  rw [tokens, hahead] at hbetween
  obtain ⟨-, hcurrent, hnext, hrest⟩ := hbetween
  rw [htail]
  refine ⟨hcurrent, hnext, ⟨stop, le_rfl, hrest⟩, fun a ha => hs.ends a ?_⟩
  rw [tokens, hahead]
  exact ha

/-- The tokens of the rest lie one after the other. -/
theorem tail (hs : s.IsSpaced) : s.tail.IsSpaced := by
  by_cases hkind : s.kind = .endOfFile
  · rwa [tail_of_endOfFile hkind]
  · exact (hs.next hkind).2.2

/-- The tokens of a later stream lie one after the other. -/
theorem onward (hs : s.IsSpaced) (h : s.Onward t) : t.IsSpaced := by
  induction h with
  | refl => exact hs
  | tail _ ih => exact ih hs.tail

/-- A token that is taken began before the place where the rest stands. -/
theorem start_le_here_tail (hs : s.IsSpaced) (hkind : s.kind ≠ .endOfFile) :
    s.current.span.start ≤ s.tail.here := by
  obtain ⟨hle, hsettled, -⟩ := hs.next hkind
  rwa [hsettled.here_eq]

/-- A token begins no later than the one after it. -/
theorem start_le_tail (hs : s.IsSpaced) (hkind : s.kind ≠ .endOfFile) :
    s.current.span.start ≤ s.tail.current.span.start :=
  (hs.start_le_here_tail hkind).trans s.tail.here_le_start

/-- Taking a token never leads back. -/
theorem here_le_tail (hs : s.IsSpaced) : s.here ≤ s.tail.here := by
  by_cases hkind : s.kind = .endOfFile
  · rw [tail_of_endOfFile hkind]
  · exact s.here_le_start.trans (hs.start_le_here_tail hkind)

/-- The token after the current one begins no earlier than where the stream stands. -/
theorem here_le_start_tail (hs : s.IsSpaced) : s.here ≤ s.tail.current.span.start :=
  hs.here_le_tail.trans s.tail.here_le_start

/-- A later stream has been read at least as far. -/
theorem here_le (hs : s.IsSpaced) (h : s.Onward t) : s.here ≤ t.here := by
  induction h with
  | refl => exact le_rfl
  | tail _ ih => exact hs.here_le_tail.trans (ih hs.tail)

/-- A settled stream leads to settled ones. -/
theorem settled_onward (hs : s.IsSpaced) (hsettled : s.Settled) (h : s.Onward t) : t.Settled := by
  induction h with
  | refl => exact hsettled
  | @tail s t _ ih =>
    refine ih hs.tail ?_
    by_cases hkind : s.kind = .endOfFile
    · rwa [tail_of_endOfFile hkind]
    · exact (hs.next hkind).2.1

/-- What is left after a token is settled. -/
theorem settled (hs : s.IsSpaced) (hkind : s.kind ≠ .endOfFile) (h : s.tail.Onward t) :
    t.Settled :=
  hs.tail.settled_onward (hs.next hkind).2.1 h

end IsSpaced

end TokenStream

open TokenStream

/-! ## Nodes around nodes -/

section Around

variable {t : TokenStream} {a : Position} {e left : Expr} {start : Span} {ds : List Expr}

/-- An expression around others, from a token on. -/
theorem InOrder.expr (h : ExprsInOrder start.start ds t.here) (ht : t.Settled)
    (ha : a ≤ start.start) (hspan : e.span = start.through t.last) (hparts : ds.Perm e.parts) :
    ExprsInOrder a [e] t.here := by
  have hencloses := h.between.encloses.perm (hparts.map Expr.span)
  have hnested : e.Nested := by
    refine .intro ?_ fun d hd => h.nested d (hparts.mem_iff.2 hd)
    rwa [hspan, Span.through, ← ht.here_eq]
  refine ⟨⟨?_, ?_, ?_⟩, List.forall_mem_singleton.2 hnested⟩
  · rw [hspan]
    exact ha
  · rw [hspan, Span.through, ← ht.here_eq]
    exact h.between.le
  · rw [hspan, Span.through, ← ht.here_eq]
    exact le_refl t.here

/-- An expression around others, from the first of them on. -/
theorem InOrder.exprFrom (h : ExprsInOrder a (left :: ds) t.here) (ht : t.Settled)
    (hspan : e.span = left.span.through t.last) (hparts : (left :: ds).Perm e.parts) :
    ExprsInOrder a [e] t.here :=
  h.head.2.expr ht h.head.1 hspan hparts

/-- The values that an operator joins: those before it, in order or already joined, and the one
after it. -/
theorem InOrder.joined {b c : Position} {op : BoolOp} {right : Expr}
    (hleft : ExprsInOrder a [left] b) (hbc : b ≤ c) (hright : ExprsInOrder c [right] t.here)
    (ht : t.Settled) : ExprsInOrder a
      [.boolean (left.span.through t.last) op (Parse.joined op left right)] t.here := by
  have hall := hleft.append hbc hright
  have hpair := hall.exprFrom (e := .boolean (left.span.through t.last) op [left, right]) ht rfl
    (.refl _)
  unfold Parse.joined
  split
  · split
    · rename_i s' _ values _
      obtain ⟨hencloses, hvalues⟩ := hleft.nested _ List.mem_cons_self
      obtain ⟨-, -, hstart, hright', hstop⟩ := hall.between
      have hnested : (Expr.boolean (s'.through t.last) op (values ++ [right])).Nested := by
        refine .intro ?_ (List.forall_mem_append.2 ⟨hvalues, hright.nested⟩)
        rw [Expr.parts, List.map_append]
        exact hencloses.concat hstart hright' (by rwa [← ht.here_eq])
      exact ⟨hpair.between, List.forall_mem_singleton.2 hnested⟩
    · exact hpair
  · exact hpair

/-- A slice with its bounds. -/
theorem InOrder.slice {s : TokenStream} {lower upper step : Option Expr}
    (hlower : ExprsInOrder a lower.toList s.here) (hs : s.IsSpaced) (hkind : s.kind ≠ .endOfFile)
    (h : s.tail.Onward t) (hrest : ExprsInOrder s.tail.here (upper.toList ++ step.toList) t.here) :
    ExprsInOrder a [.slice (((lower.map Expr.span).getD s.current.span).through t.last) lower upper
      step] t.here := by
  have ht := hs.settled hkind h
  cases lower with
  | none =>
    exact (hrest.mono (hs.start_le_here_tail hkind) le_rfl).expr ht
      (hlower.between.trans s.here_le_start) rfl (.refl _)
  | some lower => exact (hlower.append hs.here_le_tail hrest).exprFrom ht rfl (.refl _)

end Around

/-! ## What is read -/

/-- The expressions of a part, in the order in which they are read. -/
def ExprPart.exprs : ExprPart → List Expr
  | .expr _ e | .exprList _ e | .opening e | .chain _ _ e | .continuation _ e | .slice _ e
  | .filter e | .subscriptItem e => [e]
  | .literal _ | .parameterName .. | .compareOp _ => []
  | .after _ e | .sliceBound e => e.toList
  | .parameter _ p => p.parts
  | .clause c => c.parts
  | .dictEntry entry => entry.1.toList ++ [entry.2]
  | .link l => [l.2]
  | .argument (.inl e) => [e]
  | .argument (.inr keyword) => [keyword.2]

/-- A part that stands for itself: it does not go on from what stands before it. -/
def ExprPart.isWhole : ExprPart → Bool
  | .opening _ | .chain .. | .continuation .. | .slice .. => false
  | _ => true

/-- Where the expressions of a phrase lie that is read from one stream to another. Of a part that
goes on from what stands before it, given where that lies. -/
def Phrase.InOrder (s t : TokenStream) : Phrase ExprPart → Prop
  | .one (.expr _ e) | .one (.exprList _ e) => ExprsInOrder s.current.span.start [e] t.here
  | .one (.opening e) => s.kind ≠ .endOfFile → t.Settled →
    ExprsInOrder s.current.span.start [e] t.here
  | .one (.chain _ left e) => ∀ a, ExprsInOrder a [left] s.here → ExprsInOrder a [e] t.here
  | .one (.continuation left e) => ∀ a, s.kind ≠ .endOfFile → t.Settled →
    ExprsInOrder a [left] s.here → ExprsInOrder a [e] t.here
  | .one (.slice lower e) => ∀ a, ExprsInOrder a lower.toList s.here → ExprsInOrder a [e] t.here
  | .one part => ExprsInOrder s.here part.exprs t.here
  | .many _ parts | .afterCommas _ parts | .untilClosed _ parts =>
    (∀ part ∈ parts, part.isWhole) → ExprsInOrder s.here (parts.flatMap ExprPart.exprs) t.here

section Parts

variable {s t u : TokenStream} {a : Position} {α : Type} {f : α → ExprPart} {as : List α}

/-- The expressions of a whole part lie between the two streams. -/
theorem Phrase.InOrder.of_isWhole {part : ExprPart} (h : (Phrase.one part).InOrder s t)
    (hpart : part.isWhole) : ExprsInOrder s.here part.exprs t.here := by
  cases part with
  | expr | exprList => exact h.mono s.here_le_start le_rfl
  | opening | chain | continuation | slice => cases hpart
  | _ => exact h

/-- Where the expressions of the parts of a loop lie. -/
theorem ExprsInOrder.of_map (hf : ∀ a, (f a).isWhole)
    (h : (∀ part ∈ as.map f, part.isWhole) →
      ExprsInOrder s.here ((as.map f).flatMap ExprPart.exprs) t.here) :
    ExprsInOrder s.here (as.flatMap fun a => (f a).exprs) t.here := by
  rw [← List.flatMap_map]
  exact h (List.forall_mem_map.2 fun a _ => hf a)

/-- Expressions that are read as parts of one kind lie where those parts do. -/
theorem ExprsInOrder.of_exprs {f : Expr → ExprPart} {es : List Expr} (hf : ∀ e, (f e).isWhole)
    (hexprs : ∀ e, (f e).exprs = [e])
    (h : (∀ part ∈ es.map f, part.isWhole) →
      ExprsInOrder s.here ((es.map f).flatMap ExprPart.exprs) t.here) :
    ExprsInOrder s.here es t.here := by
  have h := ExprsInOrder.of_map hf h
  simp only [hexprs] at h
  rwa [List.flatMap_singleton'] at h

/-- The arguments of a call, by position and by name, are those that are read. -/
theorem perm_arguments (arguments : List (Expr ⊕ Option String × Expr)) :
    (arguments.flatMap fun a => (ExprPart.argument a).exprs).Perm
      (arguments.filterMap Sum.getLeft? ++
        (arguments.filterMap Sum.getRight?).map Prod.snd) := by
  induction arguments with
  | nil => exact .refl _
  | cons a arguments ih =>
    cases a with
    | inl e => exact ih.cons e
    | inr keyword => exact (ih.cons keyword.2).trans List.perm_middle.symm

/-! ## Tokens are taken -/

/-- The beginning of an expression takes a token. -/
theorem ReadsExpr.takes_of_opening {e : Expr} (h : ReadsExpr s (.one (.opening e)) t) :
    s.kind ≠ .endOfFile ∧ s.tail.Onward t := by
  have hopening : TokenKind.opening? .endOfFile = none := rfl
  cases h
  all_goals grind [Onward.refl, Onward.tail, Onward.trans, Onward.next, Onward.skip,
    → ReadsExpr.onward, TokenStream.atLiteral]

/-- A link of a comparison takes its operator. -/
theorem ReadsExpr.takes_of_link {op : CompareOp} {e : Expr}
    (h : ReadsExpr s (.one (.link (op, e))) t) : s.kind ≠ .endOfFile ∧ s.tail.Onward t := by
  have hcompare : TokenKind.compareOp? .endOfFile = none := rfl
  cases h with
  | link hop h =>
    cases hop
    all_goals grind [Onward.refl, Onward.tail, Onward.trans, Onward.next, → ReadsExpr.onward]

/-- What continues an expression takes a token. -/
theorem ReadsExpr.takes_of_continuation {left e : Expr}
    (h : ReadsExpr s (.one (.continuation left e)) t) :
    s.kind ≠ .endOfFile ∧ s.tail.Onward t := by
  have hcontinuation : TokenKind.continuation? .endOfFile = none := rfl
  have hbinary : TokenKind.binaryOp? .endOfFile = none := rfl
  cases h
  all_goals grind [Onward.refl, Onward.tail, Onward.trans, Onward.next, → ReadsExpr.onward,
    → ReadsExpr.takes_of_link]

/-- An expression takes a token. -/
theorem ReadsExpr.takes {power : BindingPower} {e : Expr}
    (h : ReadsExpr s (.one (.expr power e)) t) : s.kind ≠ .endOfFile ∧ s.tail.Onward t := by
  cases h with
  | expr hopening hchain =>
    obtain ⟨hkind, htail⟩ := hopening.takes_of_opening
    exact ⟨hkind, htail.trans hchain.onward⟩

/-- A list that goes on after a comma takes the comma. -/
theorem ReadsExpr.onward_of_comma {atEnd : TokenKind → Bool} {parts : List ExprPart}
    (h : ReadsExpr s (.afterCommas atEnd parts) t) (hcomma : s.kind = .comma) :
    s.tail.Onward t := by
  cases h with
  | commasDone hne => exact absurd hcomma hne
  | commasLast => exact .refl
  | commasNext _ _ h h' => exact h.onward.trans h'.onward

end Parts

/-- The expressions that are read lie one after the other, nested each in itself. -/
theorem ReadsExpr.inOrder {s t : TokenStream} {phrase : Phrase ExprPart}
    (h : ReadsExpr s phrase t) : s.IsSpaced → phrase.InOrder s t := by
  induction h with
  -- expressions
  | expr h _ ih ih' =>
    intro hs
    obtain ⟨hkind, htail⟩ := h.takes_of_opening
    exact ih' (hs.onward h.onward) _ (ih hs hkind (hs.settled hkind htail))
  | chainEnd => exact fun _ _ => id
  | chainNext _ h _ ih ih' =>
    intro hs a hleft
    obtain ⟨hkind, htail⟩ := h.takes_of_continuation
    exact ih' (hs.onward h.onward) a (ih hs a hkind (hs.settled hkind htail) hleft)
  | single _ _ ih => exact ih
  | bareTuple h hcomma h' ih ih' =>
    intro hs
    have ht := hs.onward h.onward
    have hothers := ExprsInOrder.of_exprs (fun _ => rfl) (fun _ => rfl) (ih' ht)
    have hu := ht.settled (by rw [hcomma]; decide) (h'.onward_of_comma hcomma)
    exact ((ih hs).append le_rfl hothers).exprFrom hu rfl (.refl _)
  -- openings
  | name | number | constant =>
    intro hs hkind ht
    exact InOrder.expr (.nil (hs.start_le_here_tail hkind)) ht le_rfl rfl (.refl _)
  | strings _ h _ =>
    intro hs hkind ht
    have hnil := (hs.start_le_here_tail hkind).trans (hs.tail.here_le h.onward)
    unfold Expr.ofLiterals
    split
    · exact InOrder.expr (.nil hnil) ht le_rfl rfl (.refl _)
    · exact InOrder.expr (.nil hnil) ht le_rfl rfl (.refl _)
  | unary _ _ ih | starred _ _ ih | await _ _ ih | yieldValue _ _ _ ih =>
    intro hs hkind ht
    have he := (ih hs.tail).mono (hs.start_le_tail hkind) le_rfl
    exact he.expr ht le_rfl rfl (.refl _)
  | yieldFrom _ hfrom _ ih =>
    intro hs hkind ht
    have hstart := (hs.start_le_tail hkind).trans (hs.tail.start_le_tail (by rw [hfrom]; decide))
    exact ((ih hs.tail.tail).mono hstart le_rfl).expr ht le_rfl rfl (.refl _)
  | yieldNothing =>
    intro hs hkind ht
    exact InOrder.expr (.nil (hs.start_le_here_tail hkind)) ht le_rfl rfl (.refl _)
  | lambda _ h hcolon _ ih ih' =>
    intro hs hkind hu
    have ht := hs.tail.onward h.onward
    have hparameters := ExprsInOrder.of_map (fun _ => rfl) (ih hs.tail)
    have hall := (hparameters.mono (hs.start_le_here_tail hkind) le_rfl).append ht.here_le_tail
      ((ih' ht.tail).mono (here_le_start _) le_rfl)
    exact hall.expr hu le_rfl rfl (.refl _)
  -- parentheses
  | unit =>
    intro hs hkind ht
    have hle := (hs.start_le_here_tail hkind).trans hs.tail.here_le_tail
    exact InOrder.expr (.nil hle) ht le_rfl rfl (.refl _)
  | group _ h _ ih =>
    intro hs hkind _
    exact (ih hs.tail).mono (hs.start_le_tail hkind) (hs.tail.onward h.onward).here_le_tail
  | tuple _ h _ h' _ ih ih' | listDisplay _ h h' _ ih ih' | setDisplay _ h h' _ ih ih' =>
    intro hs hkind hu
    have ht := hs.tail.onward h.onward
    have hothers := ExprsInOrder.of_exprs (fun _ => rfl) (fun _ => rfl) (ih' ht)
    have hall := ((ih hs.tail).append le_rfl hothers).mono (hs.start_le_tail hkind)
      (ht.onward h'.onward).here_le_tail
    exact hall.expr hu le_rfl rfl (.refl _)
  | generator _ h _ h' _ ih ih' | listComprehension _ h _ h' _ ih ih'
  | setComprehension _ h _ h' _ ih ih' =>
    intro hs hkind hu
    have ht := hs.tail.onward h.onward
    have hclauses := ExprsInOrder.of_map (fun _ => rfl) (ih' ht)
    have hall := ((ih hs.tail).append le_rfl hclauses).mono (hs.start_le_tail hkind)
      (ht.onward h'.onward).here_le_tail
    exact hall.expr hu le_rfl rfl (.refl _)
  -- brackets and braces
  | emptyList | emptyDict =>
    intro hs hkind ht
    have hle := (hs.start_le_here_tail hkind).trans hs.tail.here_le_tail
    exact InOrder.expr (.nil hle) ht le_rfl rfl (.refl _)
  | unpackedDict _ _ h _ ih =>
    intro hs hkind hu
    have hentries := ExprsInOrder.of_map (fun _ => rfl) (ih hs.tail)
    have hall := hentries.mono (hs.start_le_here_tail hkind)
      (hs.tail.onward h.onward).here_le_tail
    exact hall.expr hu le_rfl rfl (.refl _)
  | dictDisplay _ h _ h' h'' _ ih ih' ih'' =>
    intro hs hkind hv
    have ht := hs.tail.onward h.onward
    have hu := ht.tail.onward h'.onward
    have hskip := hu.onward (.skip .comma)
    have hentries := ExprsInOrder.of_map (fun _ => rfl) (ih'' hskip)
    have hvalue := ((ih' ht.tail).mono (here_le_start _) le_rfl).append
      (hu.here_le (.skip .comma)) hentries
    have hall := ((ih hs.tail).append ht.here_le_tail hvalue).mono (hs.start_le_tail hkind)
      (hskip.onward h''.onward).here_le_tail
    exact hall.expr hv le_rfl rfl (.refl _)
  | dictComprehension _ h _ h' _ h'' _ ih ih' ih'' =>
    intro hs hkind hv
    have ht := hs.tail.onward h.onward
    have hu := ht.tail.onward h'.onward
    have hclauses := ExprsInOrder.of_map (fun _ => rfl) (ih'' hu)
    have hvalue := ((ih' ht.tail).mono (here_le_start _) le_rfl).append le_rfl hclauses
    have hall := ((ih hs.tail).append ht.here_le_tail hvalue).mono (hs.start_le_tail hkind)
      (hu.onward h''.onward).here_le_tail
    exact hall.expr hv le_rfl rfl (.refl _)
  -- continuations
  | named _ _ _ ih | pow _ _ ih | binary _ _ _ ih =>
    intro hs a _ ht hleft
    exact (hleft.append hs.here_le_start_tail (ih hs.tail)).exprFrom ht rfl (.refl _)
  | boolean _ _ ih =>
    intro hs a _ ht hleft
    exact hleft.joined hs.here_le_start_tail (ih hs.tail) ht
  | conditional _ h _ _ ih ih' =>
    intro hs a _ hu hleft
    have ht := hs.tail.onward h.onward
    have hall := (hleft.append hs.here_le_start_tail (ih hs.tail)).append ht.here_le_start_tail
      (ih' ht.tail)
    exact hall.exprFrom hu rfl (.swap ..)
  | comparison h _ ih ih' =>
    intro hs a _ hu hleft
    have hothers := ExprsInOrder.of_map (fun _ => rfl) (ih' (hs.onward h.onward))
    have hall := hleft.append le_rfl ((ih hs).append le_rfl hothers)
    refine hall.exprFrom hu rfl ?_
    rw [Expr.parts, List.map_cons, List.map_eq_flatMap]
    exact .refl _
  | call _ h _ ih =>
    intro hs a _ ht hleft
    have harguments := ExprsInOrder.of_map (fun _ => rfl) (ih hs.tail)
    have hall := (hleft.append hs.here_le_tail harguments).mono le_rfl
      (hs.tail.onward h.onward).here_le_tail
    exact hall.exprFrom ht rfl ((perm_arguments _).cons _)
  | index _ h _ ih =>
    intro hs a _ ht hleft
    have hall := (hleft.append hs.here_le_tail (ih hs.tail)).mono le_rfl
      (hs.tail.onward h.onward).here_le_tail
    exact hall.exprFrom ht rfl (.refl _)
  | indexTuple _ h _ h' _ ih ih' =>
    intro hs a hkind hu hleft
    have ht := hs.tail.onward h.onward
    have hothers := ExprsInOrder.of_exprs (fun _ => rfl) (fun _ => rfl) (ih' ht)
    have hitems := ((ih hs.tail).append le_rfl hothers).mono (hs.start_le_here_tail hkind)
      (ht.onward h'.onward).here_le_tail
    refine InOrder.exprFrom ?_ hu rfl (.refl _)
    exact hleft.append (here_le_start _) (hitems.expr hu le_rfl rfl (.refl _))
  | member =>
    intro hs a _ ht hleft
    have hall := hleft.mono le_rfl (hs.here_le (.tail .single))
    exact hall.exprFrom ht rfl (.refl _)
  -- parts of expressions
  | literal | keywordOnlyMarker | positionalOnlyMarker | positional | compareOp | is =>
    exact fun hs => .nil hs.here_le_tail
  | varArgs | varKeyword | notIn | isNot => exact fun hs => .nil (hs.here_le (.tail .single))
  | afterNothing | unbounded => exact fun _ => .nil le_rfl
  | after _ _ _ ih | filter _ _ ih | unpackedEntry _ _ ih | unpackedArgument _ _ ih =>
    exact fun hs => (ih hs.tail).mono hs.here_le_start_tail le_rfl
  | keywordArgument _ _ ih =>
    intro hs
    exact (ih hs.tail.tail).mono (hs.here_le_tail.trans hs.tail.here_le_start_tail) le_rfl
  | sliceBound _ _ ih | argument _ _ _ ih | subscriptItem _ _ ih =>
    exact fun hs => (ih hs).mono (here_le_start _) le_rfl
  | parameter h h' _ ih ih' ih'' =>
    intro hs
    have ht := hs.onward h.onward
    exact ((ih hs).append le_rfl (ih' ht)).append le_rfl (ih'' (ht.onward h'.onward))
  | lambdaParameter h _ ih ih' =>
    exact fun hs => (ih hs).append le_rfl (ih' (hs.onward h.onward))
  | clause _ h _ h' _ ih ih' ih'' =>
    intro hs
    have ht := hs.tail.onward h.onward
    have hfilters := ExprsInOrder.of_exprs (fun _ => rfl) (fun _ => rfl)
      (ih'' (ht.tail.onward h'.onward))
    have htarget := (ih hs.tail).mono hs.here_le_start_tail le_rfl
    exact htarget.append ht.here_le_start_tail ((ih' ht.tail).append le_rfl hfilters)
  | asyncClause _ _ h _ h' _ ih ih' ih'' =>
    intro hs
    have ht := hs.tail.tail.onward h.onward
    have hfilters := ExprsInOrder.of_exprs (fun _ => rfl) (fun _ => rfl)
      (ih'' (ht.tail.onward h'.onward))
    have htarget := (ih hs.tail.tail).mono (hs.here_le_tail.trans hs.tail.here_le_start_tail) le_rfl
    exact htarget.append ht.here_le_start_tail ((ih' ht.tail).append le_rfl hfilters)
  | dictEntry h _ _ ih ih' =>
    intro hs
    have ht := hs.onward h.onward
    exact ((ih hs).mono (here_le_start _) le_rfl).append ht.here_le_start_tail (ih' ht.tail)
  | link h _ ih ih' =>
    intro hs
    have ht := hs.onward h.onward
    exact (ih' ht).mono ((hs.here_le h.onward).trans (here_le_start _)) le_rfl
  | generatorArgument _ h _ h' ih ih' =>
    intro hs
    have ht := hs.onward h.onward
    have hclauses := ExprsInOrder.of_map (fun _ => rfl) (ih' ht)
    have hall := ((ih hs).mono (here_le_start _) le_rfl).append le_rfl hclauses
    obtain ⟨hkind, htail⟩ := h.takes
    exact hall.exprFrom (hs.settled hkind (htail.trans h'.onward)) rfl (.refl _)
  | slice hcolon h _ ih =>
    intro hs a hlower
    exact hlower.slice hs (by rw [hcolon]; decide) h.onward
      ((ih hs.tail).append le_rfl (.nil le_rfl))
  | steppedSlice hcolon h _ h' ih ih' =>
    intro hs a hlower
    have ht := hs.tail.onward h.onward
    exact hlower.slice hs (by rw [hcolon]; decide) (h.onward.next.trans h'.onward)
      ((ih hs.tail).append ht.here_le_tail (ih' ht.tail))
  | sliceItem _ _ ih => exact fun hs => ih hs _ (.nil le_rfl)
  | boundedSliceItem h _ _ ih ih' =>
    exact fun hs => ih' (hs.onward h.onward) _ ((ih hs).mono (here_le_start _) le_rfl)
  -- loops
  | manyDone | commasDone | closedDone => exact fun _ _ => .nil le_rfl
  | commasLast => exact fun hs _ => .nil hs.here_le_tail
  | manyNext _ h _ ih ih' =>
    intro hs hparts
    obtain ⟨hpart, hparts⟩ := List.forall_mem_cons.1 hparts
    exact ((ih hs).of_isWhole hpart).append le_rfl (ih' (hs.onward h.onward) hparts)
  | commasNext _ _ h _ ih ih' =>
    intro hs hparts
    obtain ⟨hpart, hparts⟩ := List.forall_mem_cons.1 hparts
    have hfirst := ((ih hs.tail).of_isWhole hpart).mono hs.here_le_tail le_rfl
    exact hfirst.append le_rfl (ih' (hs.tail.onward h.onward) hparts)
  | closedNext _ h _ _ ih ih' =>
    intro hs hparts
    obtain ⟨hpart, hparts⟩ := List.forall_mem_cons.1 hparts
    have ht := hs.onward h.onward
    exact ((ih hs).of_isWhole hpart).append ht.here_le_tail (ih' ht.tail hparts)
  | closedLast _ _ _ ih =>
    intro hs hparts
    have hpart := (ih hs).of_isWhole (hparts _ List.mem_cons_self)
    rwa [List.flatMap_singleton]

end NoteCheck.Code
