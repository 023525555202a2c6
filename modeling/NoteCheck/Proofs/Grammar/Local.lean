/-
# Readings that look one token ahead

A reading is local if what it comes to depends only on the tokens up to the place that it comes to
and on the one after that. Two streams are compared that have the same tokens up to some place: a
reading that has not come near the place in the first stream comes to the same in the second one.
The second reading may have other bounds, and may come to one of them; that it never does is known
from elsewhere. The rules below go through the steps of a reading, as for the bounds.
-/
import Mathlib.Order.WellFounded
import NoteCheck.Proofs.Grammar.Bounded

namespace NoteCheck.Code

/-! ## Two streams -/

namespace TokenStream

/-- The second stream has the tokens of the first one up to the given rest of it. -/
structure Shares (rest : List Token) (s s' : TokenStream) : Prop where
  last : s'.last = s.last
  seen : ∃ seen, s.tokens = seen ++ rest ∧ seen <+: s'.tokens

/-- Neither the next token nor the one after it is part of the given rest of the tokens. -/
abbrev Before (rest : List Token) (s : TokenStream) : Prop := rest <:+ s.tokens.drop 2

variable {rest : List Token} {s s' t : TokenStream}

/-- What begins further on is before a rest still where it begins earlier. -/
theorem Before.of_suffix (h : t.Before rest) (hst : t.tokens <:+ s.tokens) : s.Before rest := by
  obtain ⟨before, hbefore⟩ := hst
  refine h.trans ?_
  rw [← hbefore, List.drop_append]
  have hdrop :
      t.tokens.drop 2 = (t.tokens.drop (2 - before.length)).drop (min 2 before.length) := by
    rw [List.drop_drop]
    congr 1
    omega
  rw [hdrop]
  exact (List.drop_suffix _ _).trans (List.suffix_append _ _)

/-- Before the rest, the next token is shared, and so is the one after it. -/
theorem Shares.exists_ahead (h : Shares rest s s') (hs : s.Before rest) :
    s'.current = s.current ∧ ∃ seen, s.ahead = seen ++ rest ∧ seen <+: s'.ahead ∧
      (seen = [] → s.ahead = []) := by
  obtain ⟨seen, hseen, hstarts⟩ := h.seen
  have hlength := hs.length_le
  rw [List.length_drop, tokens, List.length_cons] at hlength
  cases seen with
  | nil =>
    rw [tokens, List.nil_append] at hseen
    rw [← hseen, List.length_cons] at hlength
    omega
  | cons a seen =>
    obtain ⟨rfl, hahead⟩ := List.cons.inj hseen
    obtain ⟨hcurrent, hstarts⟩ := List.cons_prefix_cons.1 hstarts
    refine ⟨hcurrent.symm, seen, hahead, hstarts, ?_⟩
    rintro rfl
    have hrest : s.ahead = rest := hahead
    rw [← hrest] at hlength
    exact List.length_eq_zero_iff.1 (by omega)

/-- Before the rest, the next token is shared. -/
theorem Shares.current_eq (h : Shares rest s s') (hs : s.Before rest) : s'.current = s.current :=
  (h.exists_ahead hs).1

/-- Before the rest, the next tokens are of one kind. -/
theorem Shares.kind_eq (h : Shares rest s s') (hs : s.Before rest) : s'.kind = s.kind :=
  congrArg Token.kind (h.current_eq hs)

/-- A stream whose last token ends the text has tokens after any other one. -/
theorem Closed.ahead_ne_nil (h : s.Closed) (hkind : s.kind ≠ .endOfFile) : s.ahead ≠ [] := by
  intro hahead
  refine hkind (h s.current ?_)
  rw [tokens, hahead]
  rfl

/-- Before the text ends, the token after the next one is shared. -/
theorem Shares.exists_next (h : Shares rest s s') (hs : s.Before rest) (hclosed : s.Closed)
    (hkind : s.kind ≠ .endOfFile) : ∃ next seen ahead', s.ahead = next :: (seen ++ rest) ∧
      s'.ahead = next :: ahead' ∧ seen <+: ahead' := by
  obtain ⟨-, seen, hahead, hstarts, hempty⟩ := h.exists_ahead hs
  cases seen with
  | nil => exact absurd (hempty rfl) (hclosed.ahead_ne_nil hkind)
  | cons next seen =>
    obtain ⟨more, hmore⟩ := hstarts
    exact ⟨next, seen, seen ++ more, hahead, hmore.symm, List.prefix_append seen more⟩

/-- Before the rest, the kind of the token after the next one is shared. -/
theorem Shares.peek_eq (h : Shares rest s s') (hs : s.Before rest) (hclosed : s.Closed)
    (hkind : s.kind ≠ .endOfFile) : s'.peek 1 = s.peek 1 := by
  obtain ⟨next, seen, ahead', hahead, hahead', -⟩ := h.exists_next hs hclosed hkind
  rw [peek, peek, hahead, hahead']
  rfl

/-- Streams that share tokens share those after the next one. -/
theorem Shares.tail (h : Shares rest s s') (hs : s.Before rest) (hclosed : s.Closed) :
    Shares rest s.tail s'.tail := by
  by_cases hkind : s.kind = .endOfFile
  · rwa [tail_of_endOfFile hkind, tail_of_endOfFile ((h.kind_eq hs).trans hkind)]
  · obtain ⟨next, seen, ahead', hahead, hahead', hstarts⟩ := h.exists_next hs hclosed hkind
    rw [tail_eq_of_ahead hkind hahead, tail_eq_of_ahead (h.kind_eq hs ▸ hkind) hahead']
    exact ⟨congrArg Token.span (h.current_eq hs), next :: seen, rfl,
      List.cons_prefix_cons.2 ⟨rfl, hstarts⟩⟩

end TokenStream

open TokenStream

namespace Parse

variable {α β γ : Type} {s t : TokenStream}

/-! ## Local readings -/

/-- The place that a reading has come to: the stream that is left, or the token that is out of
place. -/
inductive EndsAt : Except Halt (α × TokenStream) → TokenStream → Prop
  | ok {a t} : EndsAt (.ok (a, t)) t
  | fault {e t} : e.position = t.current.span.start → EndsAt (.error (.fault e)) t

/-- A second reading has come to the same as the first one, or to a bound. -/
inductive Coincides (rest : List Token) :
    Except Halt (α × TokenStream) → Except Halt (α × TokenStream) → Prop
  | ok {a t t'} : Shares rest t t' → Coincides rest (.ok (a, t)) (.ok (a, t'))
  | fault {e} : Coincides rest (.error (.fault e)) (.error (.fault e))
  | exhausted {r} : Coincides rest r (.error .exhausted)

/-- A reading comes to a place, and wherever the tokens up to that place and the one after it stand,
the second reading comes to the same. -/
structure ComesTo (p q : Parse α) (s t : TokenStream) : Prop where
  onward : t.tokens <:+ s.tokens
  ends : EndsAt (p s) t
  coincides : ∀ rest s', Shares rest s s' → t.Before rest → Coincides rest (p s) (q s')

/-- Where a property holds, a reading that comes to none of its bounds depends on the tokens up to
the place that it comes to and on the one after it. -/
def Local (P : TokenStream → Prop) (p q : Parse α) : Prop :=
  ∀ ⦃s⦄, s.Closed → P s → p s = .error .exhausted ∨ ∃ t, ComesTo p q s t

/-- Readings that are local wherever they begin. -/
abbrev Near (p q : Parse α) : Prop := Local (fun _ => True) p q

/-- What can be said of a stream by its next token and the one after it. -/
def Looks {γ : Sort*} (P : TokenStream → Prop) (f : TokenStream → γ) : Prop :=
  ∀ ⦃s⦄, s.Closed → P s → ∀ rest s', Shares rest s s' → s.Before rest → f s' = f s

section Looks

variable {P : TokenStream → Prop}

/-- What follows from what is seen of a stream is seen of it, too. -/
theorem Looks.map {f : TokenStream → γ} (h : Looks P f) {δ : Type*} (g : γ → δ) :
    Looks P fun s => g (f s) :=
  fun _ hs hPs rest s' hshares hbefore => congrArg g (h hs hPs rest s' hshares hbefore)

/-- The kind of the next token is seen of a stream. -/
theorem looks_kind : Looks P TokenStream.kind := fun _ _ _ _ _ h hs => h.kind_eq hs

/-- Before the text ends, the token after the next one may be looked at. -/
theorem looks_peek (hP : ∀ s, P s → s.kind ≠ .endOfFile) : Looks P fun s => s.peek 1 :=
  fun s hs hPs _ _ h hbefore => h.peek_eq hbefore hs (hP s hPs)

end Looks

namespace Local

variable {P : TokenStream → Prop} {p q : Parse α} {k l : α → Parse β}

/-! ## Steps -/

/-- A reading that is local where a property holds is local where a stronger one does. -/
theorem mono (h : Local P p q) {P' : TokenStream → Prop} (hP : ∀ s, P' s → P s) : Local P' p q :=
  fun s hs hPs => h hs (hP s hPs)

/-- Readings that are local anywhere are local where a property holds. -/
theorem on (h : Near p q) : Local P p q := h.mono fun _ _ => trivial

/-- The second reading may come to a bound at once. -/
theorem halted (h : Local P p q) : Local P p (throw .exhausted) := by
  intro s hs hPs
  obtain h | ⟨t, h⟩ := h hs hPs
  · exact .inl h
  · exact .inr ⟨t, h.onward, h.ends, fun _ _ _ _ => .exhausted⟩

/-- A reading that comes to a bound says nothing about the second one. -/
theorem exhausted : Local P (throw .exhausted) q := fun _ _ _ => .inl rfl

/-- A result without a reading depends on no token. -/
theorem pure {a : α} : Local P (pure a) (pure a) :=
  fun s _ _ => .inr ⟨s, List.suffix_refl _, .ok, fun _ _ h _ => .ok h⟩

/-- A chain of readings goes on from the result of the first one. -/
theorem run_bind {p : Parse α} {k : α → Parse β} : (p >>= k) s =
    match p s with
    | .ok (a, t) => k a t
    | .error e => .error e := by
  simp only [Bind.bind, StateT.bind, Except.bind]
  rcases p s with e | ⟨a, t⟩ <;> rfl

/-- The place that two readings in turn come to is that of the first one if it fails, and otherwise
that of the second one. -/
theorem bind (hp : Local P p q) (hk : ∀ a, Near (k a) (l a)) : Local P (p >>= k) (q >>= l) := by
  intro s hs hPs
  -- where the first reading ends, the second one starts from a suffix that both streams share
  obtain hhalt | ⟨u, honward, hends, hcoincides⟩ := hp hs hPs
  · exact .inl (by rw [run_bind, hhalt])
  cases hps : p s with
  | error e =>
    rw [hps] at hends hcoincides
    refine .inr ⟨u, honward, ?_, fun rest s' hshares hbefore => ?_⟩
    · rw [run_bind, hps]
      cases hends with
      | fault he => exact .fault he
    · have hsame := hcoincides rest s' hshares hbefore
      rw [run_bind, run_bind, hps]
      generalize q s' = r at hsame
      cases hsame with
      | fault => exact .fault
      | exhausted => exact .exhausted
  | ok r =>
    obtain ⟨a, v⟩ := r
    rw [hps] at hends hcoincides
    obtain ⟨⟩ := hends
    have hpk : (p >>= k) s = k a u := by rw [run_bind, hps]
    obtain hhalt | ⟨t, honward', hends', hcoincides'⟩ := hk a (hs.of_suffix honward) trivial
    · exact .inl (hpk.trans hhalt)
    refine .inr ⟨t, honward'.trans honward, hpk ▸ hends', fun rest s' hshares hbefore => ?_⟩
    have hsame := hcoincides rest s' hshares (hbefore.of_suffix honward')
    rw [hpk, run_bind]
    generalize q s' = r at hsame
    cases hsame with
    | ok hshares' => exact hcoincides' rest _ hshares' hbefore
    | exhausted => exact .exhausted

/-- A result without a reading may stand before a local reading. -/
theorem pureBind {a : α} (h : Local P (k a) (l a)) :
    Local P (Pure.pure a >>= k) (Pure.pure a >>= l) := by
  rwa [pure_bind, pure_bind]

/-- A local reading stays so when its result is one that is there. -/
theorem some (hp : Local P p q) : Local P (Option.some <$> p) (Option.some <$> q) := by
  rw [map_eq_pure_bind, map_eq_pure_bind]
  exact hp.bind fun _ => pure

/-- Going on with what can be said of a stream by its next token and the one after it. -/
protected theorem get {k l : TokenStream → Parse β} (hl : Looks P l)
    (hk : ∀ s, Local (fun t => P t ∧ t = s) (k s) (l s)) : Local P (get >>= k) (get >>= l) := by
  intro s hs hPs
  obtain hhalt | ⟨t, honward, hends, hcoincides⟩ := hk s hs ⟨hPs, rfl⟩
  · exact .inl hhalt
  · refine .inr ⟨t, honward, hends, fun rest s' hshares hbefore => ?_⟩
    show Coincides rest (k s s) (l s' s')
    rw [hl hs hPs rest s' hshares (hbefore.of_suffix honward)]
    exact hcoincides rest s' hshares hbefore

/-- The kind of the next token, which is known in what follows. -/
theorem kindOf {k l : TokenKind → Parse β}
    (hk : ∀ kind, Local (fun s => P s ∧ s.kind = kind) (k kind) (l kind)) :
    Local P (Parse.kind >>= k) (Parse.kind >>= l) :=
  Local.get (looks_kind.map l) fun s =>
    (hk s.kind).mono fun _ ht => ⟨ht.1, congrArg TokenStream.kind ht.2⟩

/-- A reading that looks at a kind is local when it is for every kind. -/
theorem kind {k l : TokenKind → Parse β} (hk : ∀ kind, Local P (k kind) (l kind)) :
    Local P (Parse.kind >>= k) (Parse.kind >>= l) :=
  kindOf fun kind => (hk kind).mono fun _ => And.left

/-- A reading that branches on a condition is local when both branches are. -/
theorem ite {C : Prop} [Decidable C] {p' q' : Parse α} (h : C → Local P p p')
    (h' : ¬C → Local P q q') : Local P (if C then p else q) (if C then p' else q') := by
  by_cases hC : C
  · rw [if_pos hC, if_pos hC]
    exact h hC
  · rw [if_neg hC, if_neg hC]
    exact h' hC

/-- A reading that branches on what is seen of a stream is local when both branches are. -/
theorem getIf {C : TokenStream → Prop} [DecidablePred C] (hC : Looks P C) {p q p' q' : Parse β}
    (h : Local P p p') (h' : Local P q q') :
    Local P (get >>= fun s => if C s then p else q) (get >>= fun s => if C s then p' else q') := by
  refine Local.get (fun s hs hPs rest s' hshares hbefore => ?_) fun s => ?_
  · simp only [hC hs hPs rest s' hshares hbefore]
  · exact ite (fun _ => h.mono fun _ => And.left) fun _ => h'.mono fun _ => And.left

/-- The fault of a token that is out of place is at that token. -/
theorem unexpected : Local P (Parse.unexpected : Parse α) Parse.unexpected := by
  refine fun s _ _ => .inr ⟨s, List.suffix_refl _, .fault rfl, fun rest s' hshares hbefore => ?_⟩
  show Coincides rest _ (.error (.fault ⟨.unexpected s'.current.shown, s'.current.span.start⟩))
  rw [hshares.current_eq hbefore]
  exact .fault

/-- The fault of a token that is out of place is at that token, with or without a sentence on it. -/
theorem unexpectedFor {expectation : String} :
    Local P (Parse.unexpectedFor expectation : Parse α) (Parse.unexpectedFor expectation) := by
  refine fun s _ _ => .inr ⟨s, List.suffix_refl _, .fault rfl, fun rest s' hshares hbefore => ?_⟩
  show Coincides rest _
    (.error (.fault ⟨.unexpectedFor s'.current.shown expectation, s'.current.span.start⟩))
  rw [hshares.current_eq hbefore]
  exact .fault

/-- Reading a token looks at no other one. -/
theorem take : Local P advance advance := by
  refine fun s hs _ => .inr ⟨s.tail, Onward.single.suffix, .ok, fun rest s' hshares hbefore => ?_⟩
  have hbefore := hbefore.of_suffix (Onward.single (s := s)).suffix
  show Coincides rest _ (.ok (s'.current, s'.tail))
  rw [hshares.current_eq hbefore]
  exact .ok (hshares.tail hbefore hs)

/-- After a token, a reading is local that is local from anywhere on. -/
protected theorem advance {k l : Token → Parse β} (hk : ∀ a, Near (k a) (l a)) :
    Local P (advance >>= k) (advance >>= l) :=
  take.bind hk

/-- The end of a span is that of a token that has been read. -/
theorem spanFrom {start : Span} {k l : Span → Parse β} (hk : ∀ span, Local P (k span) (l span)) :
    Local P (spanFrom start >>= k) (spanFrom start >>= l) :=
  Local.get (fun _ _ _ _ _ h _ => congrArg (fun last => l (start.through last)) h.last)
    fun s => (hk (start.through s.last)).mono fun _ => And.left

/-- Reading an expected token looks at no other one. -/
theorem takes {kind : TokenKind} : Local P (Parse.expect kind) (Parse.expect kind) :=
  Local.kind fun _ => ite (fun _ => take) fun _ => unexpected

/-- After an expected token, a reading is local that is local from anywhere on. -/
theorem expect {kind : TokenKind} {k l : Token → Parse β} (hk : ∀ a, Near (k a) (l a)) :
    Local P (Parse.expect kind >>= k) (Parse.expect kind >>= l) :=
  takes.bind hk

/-- After a token that may be skipped, a reading is local that is local from anywhere on. -/
theorem skip? {kind : TokenKind} {k l : Bool → Parse β} (hk : ∀ found, Near (k found) (l found)) :
    Local P (Parse.skip? kind >>= k) (Parse.skip? kind >>= l) := by
  have hskip : Local P (Parse.skip? kind) (Parse.skip? kind) :=
    Local.kind fun _ => ite (fun _ => .advance fun _ => pure) fun _ => pure
  exact hskip.bind hk

/-! ## Bounds and loops -/

/-- The number of tokens that are left may be used as a bound. -/
theorem fuel {k l : Nat → Parse β} (h : ∀ i j, Local P (k i) (l j)) :
    Local P (get >>= fun s => k s.fuel) (get >>= fun s => l s.fuel) := by
  intro s hs hPs
  by_cases hhalt : k s.fuel s = .error .exhausted
  · exact .inl hhalt
  -- Of the places for the bounds of the second reading, the one furthest on is right for all.
  choose t ht using fun j => (h s.fuel j hs hPs).resolve_left hhalt
  let furthest := Function.argmin fun j => (t j).fuel
  have hfurthest (j : Nat) : (t furthest).tokens <:+ (t j).tokens :=
    List.suffix_of_suffix_length_le (ht furthest).onward (ht j).onward
      (Function.argmin_le (fun j => (t j).fuel) j)
  refine .inr ⟨t furthest, (ht furthest).onward, (ht furthest).ends,
    fun rest s' hshares hbefore => ?_⟩
  exact (ht s'.fuel).coincides rest s' hshares (hbefore.of_suffix (hfurthest s'.fuel))

/-- Rounds are local when one is, whatever the bounds on their number. -/
theorem rounds {round round' : α → Parse (α ⊕ β)} (hround : ∀ a, Near (round a) (round' a))
    (i j : Nat) (a : α) :
    Near (rounds (throw .exhausted) round i a) (rounds (throw .exhausted) round' j a) := by
  induction i generalizing j a with
  | zero => exact exhausted
  | succ i ih =>
    have hstep (j : Nat) : Near (NoteCheck.rounds (throw .exhausted) round (i + 1) a)
        (NoteCheck.rounds (throw .exhausted) round' (j + 1) a) := by
      rw [NoteCheck.rounds, NoteCheck.rounds]
      refine (hround a).bind fun next => ?_
      cases next with
      | inl a => exact ih j a
      | inr b => exact pure
    cases j with
    | zero => exact (hstep 0).halted
    | succ j => exact hstep j

/-- A loop is local when its rounds are. -/
theorem loop {round round' : α → Parse (α ⊕ β)} (hround : ∀ a, Near (round a) (round' a)) (a : α) :
    Local P (loop round a) (loop round' a) :=
  on (fuel fun i j => rounds hround i j a)

variable {item item' : Parse α}

/-- Items are read locally when one is and where they go on is seen. -/
theorem manyWhile {more : TokenStream → Bool} (hmore : Looks (fun _ => True) more)
    (hitem : Near item item') : Local P (manyWhile more item) (manyWhile more item') := by
  exact loop (fun found => getIf (hmore.map (· = true)) (hitem.bind fun _ => pure) pure) []

/-- Items after commas are read locally when one is. -/
theorem afterCommas {atEnd : TokenKind → Bool} (hitem : Near item item') :
    Local P (afterCommas atEnd item) (afterCommas atEnd item') := by
  refine loop (fun found => skip? fun comma => ite (fun _ => pure) fun _ => ?_) []
  exact kind fun _ => ite (fun _ => pure) fun _ => hitem.bind fun _ => pure

/-- Items up to a closing token are read locally when one is. -/
theorem untilClosed {closing : TokenKind} (hitem : Near item item') :
    Local P (untilClosed closing item) (untilClosed closing item') := by
  refine loop (fun found => kind fun _ => ite (fun _ => pure) fun _ => ?_) []
  exact hitem.bind fun _ => skip? fun comma => ite (fun _ => pure) fun _ => pure

end Local

end Parse

end NoteCheck.Code
