/-
# What a reading that succeeds has done

Reading a part of a list of tokens either halts or gives a result and the stream that is left. The
lemmas below take a reading that succeeded apart, step by step, and the three loops round by round:
a property of the loop follows from what it says of the last round and of one more round.
-/
import NoteCheck.Code.Grammar.Stream
import Mathlib.Tactic.Common

namespace NoteCheck.Code

namespace TokenStream

variable {s : TokenStream}

/-- A token that is not the last one gives way to the token after it. -/
theorem tail_eq_of_ahead {next : Token} {ahead : List Token} (hkind : s.kind ≠ .endOfFile)
    (hahead : s.ahead = next :: ahead) : s.tail = ⟨s.current.span, next, ahead⟩ := by
  unfold tail
  split
  · contradiction
  · simp_all
  · simp_all

/-- The end of the tokens is never passed. -/
theorem tail_of_endOfFile (h : s.kind = .endOfFile) : s.tail = s := by
  unfold tail
  split
  · rfl
  · rfl
  · contradiction

/-- The kind that is seen one token ahead is the one after a token is taken. -/
theorem kind_tail_of_peek {kind : TokenKind} (hs : s.kind ≠ .endOfFile) (hkind : kind ≠ .endOfFile)
    (h : s.peek 1 = kind) : s.tail.kind = kind := by
  cases hahead : s.ahead with
  | nil =>
    rw [peek, hahead] at h
    exact absurd h.symm hkind
  | cons next ahead =>
    rw [peek, hahead] at h
    rw [tail_eq_of_ahead hs hahead]
    exact h

/-- The tokens of a stream that are still to be read. -/
def tokens (s : TokenStream) : List Token := s.current :: s.ahead

end TokenStream

namespace Parse

variable {α β : Type} {s t u : TokenStream}

/-! ## Steps -/

@[simp] theorem pure_eq_ok {a b : α} : (pure a : Parse α) s = .ok (b, t) ↔ a = b ∧ s = t := by
  rw [show (pure a : Parse α) s = .ok (a, s) from rfl, Except.ok.injEq, Prod.mk.injEq]

/-- Two readings in turn succeed when the second one goes on from where the first one ends. -/
@[simp] theorem bind_eq_ok {p : Parse α} {f : α → Parse β} {b : β} :
    (p >>= f) s = .ok (b, t) ↔ ∃ a u, p s = .ok (a, u) ∧ f a u = .ok (b, t) := by
  simp only [bind, StateT.bind, Except.bind]
  rcases p s with e | ⟨a, u⟩
  · simp
  · simp

@[simp] theorem map_eq_ok {p : Parse α} {f : α → β} {b : β} :
    (f <$> p) s = .ok (b, t) ↔ ∃ a, p s = .ok (a, t) ∧ f a = b := by
  rw [map_eq_pure_bind, bind_eq_ok]
  simp [pure_eq_ok]

@[simp] theorem ite_eq_ok {c : Prop} [Decidable c] {p q : Parse α} {a : α} :
    (if c then p else q) s = .ok (a, t) ↔ c ∧ p s = .ok (a, t) ∨ ¬c ∧ q s = .ok (a, t) := by
  split <;> simp [*]

@[simp] theorem throw_ne_ok {a : α} {e : Halt} : ¬(throw e : Parse α) s = .ok (a, t) := nofun

@[simp] theorem get_bind {f : TokenStream → Parse β} : (get >>= f) s = f s s := rfl

@[simp] theorem kind_bind {f : TokenKind → Parse β} : (kind >>= f) s = f s.kind s := rfl

@[simp] theorem advance_bind {f : Token → Parse β} : (advance >>= f) s = f s.current s.tail := rfl

@[simp] theorem spanFrom_bind {start : Span} {f : Span → Parse β} :
    (spanFrom start >>= f) s = f (start.through s.last) s := rfl

@[simp] theorem spanFrom_eq_ok {start span : Span} :
    spanFrom start s = .ok (span, t) ↔ start.through s.last = span ∧ s = t := by
  rw [show spanFrom start s = .ok (start.through s.last, s) from rfl, Except.ok.injEq,
    Prod.mk.injEq]

@[simp] theorem get_eq_ok {u : TokenStream} : (get : Parse _) s = .ok (u, t) ↔ s = u ∧ s = t := by
  rw [show (get : Parse _) s = .ok (s, s) from rfl, Except.ok.injEq, Prod.mk.injEq]

@[simp] theorem advance_eq_ok {a : Token} :
    advance s = .ok (a, t) ↔ s.current = a ∧ s.tail = t := by
  rw [show advance s = .ok (s.current, s.tail) from rfl, Except.ok.injEq, Prod.mk.injEq]

@[simp] theorem unexpected_ne_ok {a : α} : ¬unexpected s = .ok (a, t) := nofun

@[simp] theorem unexpectedFor_ne_ok {expectation : String} {a : α} :
    ¬unexpectedFor expectation s = .ok (a, t) := nofun

@[simp] theorem expect_eq_ok {k : TokenKind} {a : Token} :
    expect k s = .ok (a, t) ↔ s.kind = k ∧ s.current = a ∧ s.tail = t := by
  rw [expect, kind_bind, ite_eq_ok, advance_eq_ok]
  simp [unexpected_ne_ok]

/-- Reading a token of a kind and going on is reading on after the token, which is there. -/
@[simp high] theorem expect_bind_eq_ok {k : TokenKind} {f : Token → Parse β} {b : β} :
    (expect k >>= f) s = .ok (b, t) ↔ s.kind = k ∧ f s.current s.tail = .ok (b, t) := by
  rw [bind_eq_ok]
  simp [expect_eq_ok, and_assoc]

/-- Skipping a token that may be missing goes on after it if it is there. -/
@[simp high] theorem skip?_bind_eq_ok {k : TokenKind} {f : Bool → Parse β} {b : β} :
    (skip? k >>= f) s = .ok (b, t) ↔
      s.kind = k ∧ f true s.tail = .ok (b, t) ∨ s.kind ≠ k ∧ f false s = .ok (b, t) := by
  have hskip : skip? k s = if s.kind = k then .ok (true, s.tail) else .ok (false, s) := by
    rw [skip?, kind_bind]
    split <;> rfl
  rw [bind_eq_ok, hskip]
  by_cases hkind : s.kind = k
  · simp [hkind]
  · simp [hkind]

/-! ## Loops -/

/-- What holds of a last round, and of a round before rounds of which it holds, holds of a loop. -/
theorem loop_induction {round : α → Parse (α ⊕ β)}
    {P : α → TokenStream → β → TokenStream → Prop}
    (last : ∀ {a s b t}, round a s = .ok (.inr b, t) → P a s b t)
    (next : ∀ {a s a' t b u}, round a s = .ok (.inl a', t) → P a' t b u → P a s b u)
    {a : α} {b : β} (h : loop round a s = .ok (b, t)) : P a s b t := by
  have hrounds : ∀ n a s, rounds (throw .exhausted) round n a s = .ok (b, t) → P a s b t := by
    intro n
    induction n with
    | zero =>
      intro a s h
      exact absurd h throw_ne_ok
    | succ n ih =>
      intro a s h
      rw [rounds] at h
      obtain ⟨a' | b', u, hround, h⟩ := bind_eq_ok.1 h
      · exact next hround (ih a' u h)
      · obtain ⟨rfl, rfl⟩ := pure_eq_ok.1 h
        exact last hround
  exact hrounds s.fuel a s h

/-- The items that a loop adds to the ones that it has found: those of the last round, after one
for each round before it. -/
theorem exists_append_of_loop {round : List α → Parse (List α ⊕ List α)}
    {P : TokenStream → List α → TokenStream → Prop}
    (hround : ∀ {found s r t}, round found s = .ok (r, t) →
      (∃ more, r = .inr (found ++ more) ∧ P s more t) ∨
      (∃ a, r = .inl (found ++ [a]) ∧ ∀ {more u}, P t more u → P s (a :: more) u))
    {found all : List α} (h : loop round found s = .ok (all, t)) :
    ∃ more, all = found ++ more ∧ P s more t := by
  refine loop_induction (P := fun found s all t => ∃ more, all = found ++ more ∧ P s more t)
    ?_ ?_ h
  · intro found s all t h
    obtain ⟨more, hall, hmore⟩ | ⟨a, ha, -⟩ := hround h
    · exact ⟨more, Sum.inr.inj hall, hmore⟩
    · cases ha
  · intro found s found' t all u h ⟨more, hall, hmore⟩
    obtain ⟨more', hmore', -⟩ | ⟨a, ha, hcons⟩ := hround h
    · cases hmore'
    · obtain rfl := Sum.inl.inj ha
      exact ⟨a :: more, by rw [hall, List.append_assoc]; rfl, hcons hmore⟩

/-- Reading items as long as one can begin, item by item. -/
theorem manyWhile_induction {more : TokenStream → Bool} {item : Parse α}
    {P : TokenStream → List α → TokenStream → Prop}
    (done : ∀ {s}, more s = false → P s [] s)
    (next : ∀ {s a t found u}, more s = true → item s = .ok (a, t) → P t found u →
      P s (a :: found) u)
    {found : List α} (h : manyWhile more item s = .ok (found, t)) : P s found t := by
  obtain ⟨_, rfl, hfound⟩ := exists_append_of_loop (P := P) (by
    intro found s r t h
    rw [get_bind, ite_eq_ok, bind_eq_ok, pure_eq_ok] at h
    obtain ⟨hmore, a, u, hitem, h⟩ | ⟨hmore, rfl, rfl⟩ := h
    · obtain ⟨rfl, rfl⟩ := pure_eq_ok.1 h
      exact .inr ⟨a, rfl, next hmore hitem⟩
    · exact .inl ⟨[], by rw [List.append_nil], done (Bool.eq_false_iff.2 hmore)⟩) h
  exact hfound

/-- Reading items after commas, item by item. -/
theorem afterCommas_induction {atEnd : TokenKind → Bool} {item : Parse α}
    {P : TokenStream → List α → TokenStream → Prop}
    (done : ∀ {s}, s.kind ≠ .comma → P s [] s)
    (last : ∀ {s}, s.kind = .comma → atEnd s.tail.kind = true → P s [] s.tail)
    (next : ∀ {s a t found u}, s.kind = .comma → atEnd s.tail.kind = false →
      item s.tail = .ok (a, t) → P t found u → P s (a :: found) u)
    {found : List α} (h : afterCommas atEnd item s = .ok (found, t)) : P s found t := by
  obtain ⟨_, rfl, hfound⟩ := exists_append_of_loop (P := P) (by
    intro found s r t h
    obtain ⟨hcomma, h⟩ | ⟨hcomma, h⟩ := skip?_bind_eq_ok.1 h
    · rw [if_neg (by simp), kind_bind, ite_eq_ok, bind_eq_ok, pure_eq_ok] at h
      obtain ⟨hend, rfl, rfl⟩ | ⟨hend, a, u, hitem, h⟩ := h
      · exact .inl ⟨[], by rw [List.append_nil], last hcomma hend⟩
      · obtain ⟨rfl, rfl⟩ := pure_eq_ok.1 h
        exact .inr ⟨a, rfl, next hcomma (Bool.eq_false_iff.2 hend) hitem⟩
    · rw [if_pos (by simp), pure_eq_ok] at h
      obtain ⟨rfl, rfl⟩ := h
      exact .inl ⟨[], by rw [List.append_nil], done hcomma⟩) h
  exact hfound

/-- Reading items up to a closing token, item by item. -/
theorem untilClosed_induction {closing : TokenKind} {item : Parse α}
    {P : TokenStream → List α → TokenStream → Prop}
    (done : ∀ {s}, s.kind = closing → P s [] s)
    (last : ∀ {s a t}, s.kind ≠ closing → item s = .ok (a, t) → t.kind ≠ .comma → P s [a] t)
    (next : ∀ {s a t found u}, s.kind ≠ closing → item s = .ok (a, t) → t.kind = .comma →
      P t.tail found u → P s (a :: found) u)
    {found : List α} (h : untilClosed closing item s = .ok (found, t)) : P s found t := by
  obtain ⟨_, rfl, hfound⟩ := exists_append_of_loop (P := P) (by
    intro found s r t h
    rw [kind_bind, ite_eq_ok, pure_eq_ok, bind_eq_ok] at h
    obtain ⟨hclosing, rfl, rfl⟩ | ⟨hclosing, a, u, hitem, h⟩ := h
    · exact .inl ⟨[], by rw [List.append_nil], done hclosing⟩
    · obtain ⟨hcomma, h⟩ | ⟨hcomma, h⟩ := skip?_bind_eq_ok.1 h
      · obtain ⟨rfl, rfl⟩ := pure_eq_ok.1 h
        exact .inr ⟨a, rfl, next hclosing hitem hcomma⟩
      · obtain ⟨rfl, rfl⟩ := pure_eq_ok.1 h
        exact .inl ⟨[a], rfl, last hclosing hitem hcomma⟩) h
  exact hfound

end Parse

end NoteCheck.Code
