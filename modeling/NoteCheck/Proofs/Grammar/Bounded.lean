/-
# Readings within their bounds

A reading is within its bounds from a stream on if it reaches none of them, and then takes as many
tokens as it should. To see that the bounds play no part, a reading is compared with one that has
others, and the two are the same. The rules below go through the steps of a reading; the rule for
loops, `Parse.Bounded.loop`, asks that every round that goes on takes a token.
-/
import NoteCheck.Proofs.Grammar.Onward
import NoteCheck.Proofs.Grammar.Runs

namespace NoteCheck.Code

namespace TokenStream

variable {s t : TokenStream}

/-- The tokens of a stream end with the end of the text. -/
def Closed (s : TokenStream) : Prop := ∀ t ∈ s.tokens.getLast?, t.kind = .endOfFile

/-- What is left of a stream ends as the stream does. -/
theorem Closed.of_suffix (h : s.Closed) (hst : t.tokens <:+ s.tokens) : t.Closed := by
  obtain ⟨before, hbefore⟩ := hst
  intro last hlast
  refine h last ?_
  rw [← hbefore, List.getLast?_append, hlast]
  rfl

/-- A token before the end of the text is one of those that are left. -/
theorem Closed.fuel_tail (h : s.Closed) (hkind : s.kind ≠ .endOfFile) :
    s.tail.fuel + 1 = s.fuel := by
  cases hahead : s.ahead with
  | nil =>
    refine absurd (h s.current ?_) hkind
    rw [tokens, hahead]
    rfl
  | cons next ahead =>
    rw [tail_eq_of_ahead hkind hahead, fuel, fuel, hahead]
    rfl

/-- Reading on leaves no more tokens. -/
theorem Onward.fuel_le (h : s.Onward t) : t.fuel ≤ s.fuel := h.suffix.length_le

end TokenStream

namespace Parse

variable {α β : Type} {s : TokenStream}

/-- A reading that comes to a bound has come to it in its first part or after that. -/
theorem bind_eq_error {p : Parse α} {k : α → Parse β} {e : Halt} :
    (p >>= k) s = .error e ↔ p s = .error e ∨ ∃ a t, p s = .ok (a, t) ∧ k a t = .error e := by
  simp only [bind, StateT.bind, Except.bind]
  rcases p s with e' | ⟨a, t⟩
  · simp
  · simp

/-- Chains of readings are the same when their parts are, on what the first part leaves. -/
theorem bind_congr_of_ok {p q : Parse α} {k l : α → Parse β} (hpq : p s = q s)
    (hkl : ∀ a t, p s = .ok (a, t) → k a t = l a t) : (p >>= k) s = (q >>= l) s := by
  simp only [bind, StateT.bind, Except.bind, ← hpq]
  cases hp : p s with
  | error e => rfl
  | ok r => exact hkl r.1 r.2 hp

/-- Two readings that are the same from a stream on. They do not reach their bounds, and go on over
as many tokens as their result asks for, or more. -/
structure Fits (least : α → Nat) (p q : Parse α) (s : TokenStream) : Prop where
  same : p s = q s
  ends : p s ≠ .error .exhausted
  moves : ∀ a t, p s = .ok (a, t) → s.Onward t ∧ t.fuel + least a ≤ s.fuel

/-- Readings fit that are the same as fitting ones. -/
theorem Fits.of_eq {least : α → Nat} {p q p' q' : Parse α} (h : p'.Fits least q' s)
    (hp : p s = p' s) (hq : q s = q' s) : p.Fits least q s := by
  obtain ⟨hsame, hends, hmoves⟩ := h
  exact ⟨by rw [hp, hq, hsame], by rwa [hp], by rwa [hp]⟩

/-- Of two readings that are the same, either may come first. -/
theorem Fits.symm {least : α → Nat} {p q : Parse α} (h : p.Fits least q s) : q.Fits least p s := by
  obtain ⟨hsame, hends, hmoves⟩ := h
  exact ⟨hsame.symm, by rwa [← hsame], by rwa [← hsame]⟩

/-- Readings that fit wherever a property holds and at most so many tokens are left. -/
def Bounded (depth : Nat) (P : TokenStream → Prop) (least : α → Nat) (p q : Parse α) : Prop :=
  ∀ ⦃s⦄, s.Closed → s.fuel ≤ depth → P s → p.Fits least q s

/-- Readings that fit, whether they take tokens or not. -/
abbrev Keeps (depth : Nat) (p q : Parse α) : Prop := Bounded depth (fun _ => True) (fun _ => 0) p q

/-- Readings that fit and take a token. -/
abbrev Takes (depth : Nat) (p q : Parse α) : Prop := Bounded depth (fun _ => True) (fun _ => 1) p q

namespace Bounded

variable {depth : Nat} {P : TokenStream → Prop} {m : α → Nat} {n : β → Nat} {p q : Parse α}
  {k l : α → Parse β}

/-! ## Steps -/

/-- Readings fit still with fewer tokens left, in fewer streams, and when fewer tokens have to be
taken. -/
theorem mono (h : Bounded depth P m p q) {depth' : Nat} {P' : TokenStream → Prop} {m' : α → Nat}
    (hdepth : depth' ≤ depth) (hP : ∀ s, P' s → P s) (hm : ∀ a, m' a ≤ m a) :
    Bounded depth' P' m' p q := by
  intro s hs hfuel hPs
  obtain ⟨hsame, hends, hmoves⟩ := h hs (Nat.le_trans hfuel hdepth) (hP s hPs)
  refine ⟨hsame, hends, fun a t ht => ?_⟩
  obtain ⟨honward, hless⟩ := hmoves a t ht
  exact ⟨honward, Nat.le_trans (Nat.add_le_add_left (hm a) t.fuel) hless⟩

/-- Readings that fit anywhere fit where a property holds. -/
theorem on (h : Bounded depth (fun _ => True) m p q) : Bounded depth P m p q :=
  h.mono (Nat.le_refl _) (fun _ _ => trivial) fun _ => Nat.le_refl _

/-- Readings fit still with fewer tokens left. -/
theorem within (h : Bounded depth P m p q) {depth' : Nat} (hdepth : depth' ≤ depth) :
    Bounded depth' P m p q :=
  h.mono hdepth (fun _ => id) fun _ => Nat.le_refl _

/-- A result without a reading fits where no token has to be taken. -/
theorem pure {a : α} (hm : m a = 0) : Bounded depth P m (pure a) (pure a) := by
  intro s _ _ _
  refine ⟨rfl, nofun, fun b t ht => ?_⟩
  obtain ⟨rfl, rfl⟩ := pure_eq_ok.1 ht
  exact ⟨.refl, by rw [hm]; exact Nat.le_refl _⟩

/-- A result without a reading may stand before readings that fit. -/
theorem pureBind {a : α} (h : Bounded depth P n (k a) (l a)) :
    Bounded depth P n (Pure.pure a >>= k) (Pure.pure a >>= l) := by
  rwa [pure_bind, pure_bind]

/-- What a reading takes is taken off the bound for what comes after it. -/
theorem bindWithin (hp : Bounded depth P m p q)
    (hk : ∀ a, Bounded (depth - m a) (fun _ => True) (fun b => n b - m a) (k a) (l a)) :
    Bounded depth P n (p >>= k) (q >>= l) := by
  intro s hs hfuel hPs
  obtain ⟨hsame, hends, hmoves⟩ := hp hs hfuel hPs
  have hafter {a : α} {t : TokenStream} (ht : p s = .ok (a, t)) :
      (k a).Fits (fun b => n b - m a) (l a) t := by
    obtain ⟨honward, hless⟩ := hmoves a t ht
    exact hk a (hs.of_suffix honward.suffix) (by omega) trivial
  refine ⟨bind_congr_of_ok hsame fun a t ht => (hafter ht).same, fun h => ?_, fun b u h => ?_⟩
  · obtain h | ⟨a, t, ht, h⟩ := bind_eq_error.1 h
    · exact hends h
    · exact (hafter ht).ends h
  · obtain ⟨a, t, ht, h⟩ := bind_eq_ok.1 h
    obtain ⟨honward, hless⟩ := hmoves a t ht
    obtain ⟨honward', hless'⟩ := (hafter ht).moves b u h
    exact ⟨honward.trans honward', by omega⟩

/-- A chain of readings takes the tokens that its parts take. -/
theorem bind (hp : Bounded depth P m p q)
    (hk : ∀ a, Bounded depth (fun _ => True) (fun b => n b - m a) (k a) (l a)) :
    Bounded depth P n (p >>= k) (q >>= l) :=
  hp.bindWithin fun a => (hk a).within (Nat.sub_le _ _)

/-- Readings fit still when their result is one that is there. -/
theorem some {least : Nat} (hp : Bounded depth P (fun _ => least) p q) :
    Bounded depth P (fun _ => least) (Option.some <$> p) (Option.some <$> q) := by
  rw [map_eq_pure_bind, map_eq_pure_bind]
  exact hp.bind fun a => pure (Nat.sub_self least)

/-- Readings that look at their stream fit when they do for every stream. -/
protected theorem get {k l : TokenStream → Parse β} (hk : ∀ s, Bounded depth P n (k s) (l s)) :
    Bounded depth P n (get >>= k) (get >>= l) :=
  fun s hs hfuel hPs => (hk s hs hfuel hPs).of_eq rfl rfl

/-- Readings that ask something of their stream fit when both branches do. -/
theorem getIf {C : TokenStream → Prop} [DecidablePred C] {p q p' q' : Parse β}
    (h : Bounded depth (fun s => P s ∧ C s) n p p') (h' : Bounded depth P n q q') :
    Bounded depth P n (get >>= fun s => if C s then p else q)
      (get >>= fun s => if C s then p' else q') := by
  intro s hs hfuel hPs
  by_cases hC : C s
  · exact (h hs hfuel ⟨hPs, hC⟩).of_eq (congrFun (if_pos hC) s) (congrFun (if_pos hC) s)
  · exact (h' hs hfuel hPs).of_eq (congrFun (if_neg hC) s) (congrFun (if_neg hC) s)

/-- The kind of the next token, which is known in what follows. -/
theorem kindOf {k l : TokenKind → Parse β}
    (hk : ∀ kind, Bounded depth (fun s => P s ∧ s.kind = kind) n (k kind) (l kind)) :
    Bounded depth P n (Parse.kind >>= k) (Parse.kind >>= l) :=
  fun s hs hfuel hPs => (hk s.kind hs hfuel ⟨hPs, rfl⟩).of_eq rfl rfl

/-- Readings that look at a kind fit when they do for every kind. -/
theorem kind {k l : TokenKind → Parse β} (hk : ∀ kind, Bounded depth P n (k kind) (l kind)) :
    Bounded depth P n (Parse.kind >>= k) (Parse.kind >>= l) :=
  kindOf fun kind => (hk kind).mono (Nat.le_refl _) (fun _ => And.left) fun _ => Nat.le_refl _

/-- Readings that branch on a condition fit when both branches do. -/
theorem ite {C : Prop} [Decidable C] {p' q' : Parse α} (h : C → Bounded depth P m p p')
    (h' : ¬C → Bounded depth P m q q') :
    Bounded depth P m (if C then p else q) (if C then p' else q') := by
  by_cases hC : C
  · rw [if_pos hC, if_pos hC]
    exact h hC
  · rw [if_neg hC, if_neg hC]
    exact h' hC

/-- A fault is no bound. -/
theorem unexpected : Bounded depth P m Parse.unexpected Parse.unexpected :=
  fun _ _ _ _ => ⟨rfl, nofun, fun _ _ h => absurd h unexpected_ne_ok⟩

/-- A fault for an expectation is no bound. -/
theorem unexpectedFor {expectation : String} :
    Bounded depth P m (Parse.unexpectedFor expectation) (Parse.unexpectedFor expectation) :=
  fun _ _ _ _ => ⟨rfl, nofun, fun _ _ h => absurd h unexpectedFor_ne_ok⟩

/-- A token is taken unless the text has ended. -/
theorem take (hP : ∀ s, P s → s.kind ≠ .endOfFile) :
    Bounded depth P (fun _ => 1) advance advance := by
  intro s hs _ hPs
  refine ⟨rfl, nofun, fun a t ht => ?_⟩
  obtain ⟨-, rfl⟩ := advance_eq_ok.1 ht
  exact ⟨.single, Nat.le_of_eq (hs.fuel_tail (hP s hPs))⟩

/-- Going on after a token of a kind that is known. -/
theorem takeOf {kind : TokenKind} (hkind : kind ≠ .endOfFile) {k l : Token → Parse β}
    (hk : ∀ a, Bounded depth (fun _ => True) (fun b => n b - 1) (k a) (l a)) :
    Bounded depth (fun s => P s ∧ s.kind = kind) n (advance >>= k) (advance >>= l) :=
  (take fun s hs => by rwa [hs.2]).bind hk

/-- Going on after the next token, which may be the end of the text. -/
protected theorem advance {k l : Token → Parse β}
    (hk : ∀ a, Bounded depth (fun _ => True) n (k a) (l a)) :
    Bounded depth P n (advance >>= k) (advance >>= l) := by
  have hadvance : Bounded depth P (fun _ => 0) advance advance := by
    intro s _ _ _
    refine ⟨rfl, nofun, fun a t ht => ?_⟩
    obtain ⟨-, rfl⟩ := advance_eq_ok.1 ht
    exact ⟨.single, TokenStream.Onward.single.fuel_le⟩
  exact hadvance.bind hk

/-- Looking at the place of the last token takes none. -/
theorem spanFrom {start : Span} {k l : Span → Parse β}
    (hk : ∀ span, Bounded depth P n (k span) (l span)) :
    Bounded depth P n (spanFrom start >>= k) (spanFrom start >>= l) :=
  fun _ hs hfuel hPs => (hk _ hs hfuel hPs).of_eq rfl rfl

/-- An expected token is taken, unless it is the end of the text. -/
theorem takes_expect {kind : TokenKind} (hkind : kind ≠ .endOfFile) :
    Bounded depth P (fun _ => 1) (Parse.expect kind) (Parse.expect kind) := by
  refine kindOf fun kind' => ite (fun h => take ?_) fun _ => unexpected
  rintro _ ⟨-, hs⟩
  rwa [hs, h]

/-- After an expected token, one token less has to be taken. -/
theorem expect {kind : TokenKind} (hkind : kind ≠ .endOfFile) {k l : Token → Parse β}
    (hk : ∀ a, Bounded depth (fun _ => True) (fun b => n b - 1) (k a) (l a)) :
    Bounded depth P n (Parse.expect kind >>= k) (Parse.expect kind >>= l) :=
  (takes_expect hkind).bind hk

/-- A token that may be skipped need not be there. -/
theorem skip? {kind : TokenKind} {k l : Bool → Parse β}
    (hk : ∀ found, Bounded depth (fun _ => True) n (k found) (l found)) :
    Bounded depth P n (skip? kind >>= k) (skip? kind >>= l) := by
  have hskip : Bounded depth P (fun _ => 0) (Parse.skip? kind) (Parse.skip? kind) :=
    Bounded.kind fun _ => ite (fun _ => .advance fun _ => pure rfl) fun _ => pure rfl
  exact hskip.bind hk

/-! ## Loops -/

/-- Rounds of which each one that goes on takes a token are over before there are more of them than
tokens that are left, and so a higher bound on their number changes nothing. -/
theorem rounds {round round' : α → Parse (α ⊕ β)} {least : Nat}
    (hround : ∀ a, Bounded depth (fun _ => True) (Sum.elim (fun _ => 1) fun _ => least) (round a)
      (round' a)) {i j : Nat} (hij : i ≤ j) (a : α) :
    Bounded (min i depth) (fun _ => True) (fun _ => least) (rounds (throw .exhausted) round i a)
      (rounds (throw .exhausted) round' j a) := by
  induction i generalizing j a with
  | zero =>
    intro s _ hfuel
    rw [Nat.zero_min] at hfuel
    exact absurd hfuel (Nat.not_succ_le_zero _)
  | succ i ih =>
    obtain ⟨j, rfl⟩ : ∃ k, j = k + 1 := ⟨j - 1, by omega⟩
    rw [NoteCheck.rounds, NoteCheck.rounds]
    refine ((hround a).within (Nat.min_le_right (i + 1) depth)).bindWithin fun next => ?_
    cases next with
    | inl a =>
      refine (ih (Nat.le_of_succ_le_succ hij) a).mono ?_ (fun _ => id) fun _ => Nat.sub_le _ _
      show min (i + 1) depth - 1 ≤ min i depth
      omega
    | inr b => exact pure (Nat.sub_self least)

/-- A loop in which each round that goes on takes a token is over after as many rounds as there are
tokens left. -/
theorem loop {round round' : α → Parse (α ⊕ β)} {least : Nat}
    (hround : ∀ a, Bounded depth (fun _ => True) (Sum.elim (fun _ => 1) fun _ => least) (round a)
      (round' a)) (a : α) :
    Bounded depth (fun _ => True) (fun _ => least) (loop round a) (loop round' a) := by
  intro s hs hfuel _
  have hall := rounds hround (Nat.le_refl s.fuel) a hs (Nat.le_min.2 ⟨Nat.le_refl _, hfuel⟩) trivial
  exact hall.of_eq rfl rfl

variable {item item' : Parse α}

/-- A round of a loop over items takes a token when an item does. -/
theorem itemRound {more : TokenStream → Bool}
    (hitem : Bounded depth (fun s => more s = true) (fun _ => 1) item item') (found : List α) :
    Bounded depth (fun _ => True) (Sum.elim (fun _ => 1) fun _ => 0) (itemRound more item found)
      (itemRound more item' found) := by
  refine getIf (C := fun s => more s = true) ?_ (pure rfl)
  exact (hitem.mono (Nat.le_refl _) (fun _ => And.right) fun _ => Nat.le_refl _).bind fun a =>
    pure rfl

/-- Items come to no bound when each of them takes a token. -/
theorem manyWhile {more : TokenStream → Bool}
    (hitem : Bounded depth (fun s => more s = true) (fun _ => 1) item item') :
    Keeps depth (manyWhile more item) (manyWhile more item') :=
  loop (itemRound hitem) []

/-- Items after commas come to no bound when each of them takes a token. -/
theorem afterCommas {atEnd : TokenKind → Bool} (hitem : Takes depth item item') :
    Keeps depth (afterCommas atEnd item) (afterCommas atEnd item') := by
  refine loop (fun found => skip? fun comma => ite (fun _ => pure rfl) fun _ => ?_) []
  exact kind fun _ => ite (fun _ => pure rfl) fun _ => hitem.on.bind fun a => pure rfl

/-- Items up to a closing token come to no bound when each of them takes a token. -/
theorem untilClosed {closing : TokenKind} (hitem : Takes depth item item') :
    Keeps depth (untilClosed closing item) (untilClosed closing item') := by
  refine loop (fun found => kind fun _ => ite (fun _ => pure rfl) fun _ => ?_) []
  exact hitem.on.bind fun a => skip? fun comma => ite (fun _ => pure rfl) fun _ => pure rfl

end Bounded

/-- Reading items is reading the first one, and then the others. -/
theorem manyWhile_eq {more : TokenStream → Bool} {item : Parse α} {depth : Nat}
    (hitem : Bounded depth (fun s => more s = true) (fun _ => 1) item item) (hs : s.Closed)
    (hfuel : s.fuel ≤ depth) : manyWhile more item s =
      (if more s then do return (← item) :: (← manyWhile more item) else pure [] : Parse _) s := by
  show rounds (throw Halt.exhausted) (itemRound more item) (s.ahead.length + 1) [] s = _
  rw [rounds, itemRound, bind_assoc, get_bind]
  by_cases hmore : more s = true
  · rw [if_pos hmore, if_pos hmore]
    simp only [bind_assoc, pure_bind]
    refine bind_congr_of_ok rfl fun a t ht => ?_
    obtain ⟨honward, hless⟩ := (hitem hs hfuel hmore).moves a t ht
    have hleft : t.fuel ≤ s.ahead.length := Nat.le_of_succ_le_succ hless
    -- After the first item the bound on the rounds may be the number of tokens that are left.
    have hothers : manyWhile more item t =
        rounds (throw Halt.exhausted) (itemRound more item) s.ahead.length [] t :=
      (Bounded.rounds (Bounded.itemRound hitem) hleft [] (hs.of_suffix honward.suffix)
        (Nat.le_min.2 ⟨Nat.le_refl _, Nat.le_trans honward.fuel_le hfuel⟩) trivial).same
    show rounds (throw Halt.exhausted) (itemRound more item) s.ahead.length ([a] ++ []) t = _
    rw [rounds_itemRound_append, map_eq_pure_bind]
    exact bind_congr_of_ok hothers.symm fun _ _ _ => rfl
  · rw [if_neg hmore, if_neg hmore]
    rfl

end Parse

end NoteCheck.Code
