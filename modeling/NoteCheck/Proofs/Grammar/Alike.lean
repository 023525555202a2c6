/-
# Reading the same tokens in two texts

A second text begins with the tokens of a first one, up to the parts of the text that they take, and
goes on where the first one ends. Readings of both are compared step by step: what the first one
comes to, the second one comes to as well (`Parse.AgreeFrom`). Inside a line the end of the first
text is not in sight, since the last of its tokens ends a line or a block.
-/
import NoteCheck.Code.Grammar.Stmt
import NoteCheck.Proofs.Grammar.Runs
import NoteCheck.Proofs.Grammar.Spans
import NoteCheck.Proofs.Layout.LineEnds

namespace NoteCheck.Code

/-- The same token in two texts, of whose spans something counts. Where layout stands does not. -/
structure Token.Like (f g : Span → Span) (a b : Token) : Prop where
  shape : a.shape = b.shape
  span : a.kind.isLayout = false → f a.span = g b.span

namespace Token.Like

variable {f g : Span → Span} {a b : Token}

/-- Tokens that are the same in two texts are of one kind. -/
theorem kind (h : Token.Like f g a b) : a.kind = b.kind := Token.kind_eq_of_shape h.shape

/-- Tokens that are the same in two texts have one text, unless they are marks of layout. -/
theorem text (h : Token.Like f g a b) (ha : a.kind.isLayout = false) : a.text = b.text :=
  Token.text_eq_of_shape h.shape ha

end Token.Like

/-- How the tokens of a text are compared with those that a second text begins with: what counts of
their spans, and the tokens with which the second text goes on, no further clause of a statement. -/
structure Comparison where
  left : Span → Span
  right : Span → Span
  left_through : ∀ a b, left (a.through b) = left a
  right_through : ∀ a b, right (a.through b) = right a
  next : Token
  ahead : List Token
  next_kind : Parse.continuesBlock next.kind = false

namespace Comparison

variable (c : Comparison)

/-- The same token in both texts. -/
abbrev Like (a b : Token) : Prop := Token.Like c.left c.right a b

/-- The tokens of the first text, and those of the second one. The last token before the end of the
first text ends a line or a block, and blocks end only after such tokens. -/
inductive Matches : List Token → List Token → Prop
  | last {a b stop} : c.Like a b → a.kind.goesOn = false → stop.kind = .endOfFile →
      Matches [a, stop] (b :: c.next :: c.ahead)
  | cons {a b first as bs} : c.Like a b → a.kind ≠ .endOfFile →
      (first.kind = .dedent → a.kind.goesOn = false) → Matches (first :: as) bs →
      Matches (a :: first :: as) (b :: bs)

/-- Streams in both texts, before the end of the first one. -/
def Alike (s t : TokenStream) : Prop := c.Matches s.tokens t.tokens

/-- Streams at the end of the first text. -/
structure Done (s t : TokenStream) : Prop where
  kind : s.kind = .endOfFile
  ahead : s.ahead = []
  tokens : t.tokens = c.next :: c.ahead

/-- Streams in both texts that may be at the end of the first one. -/
def Reached (s t : TokenStream) : Prop := c.Alike s t ∨ c.Done s t

end Comparison

variable {c : Comparison} {s t : TokenStream}

namespace Comparison.Alike

/-- Streams in both texts stand before the same token. -/
theorem current (h : c.Alike s t) : c.Like s.current t.current := by
  obtain ⟨_, a, as⟩ := s
  obtain ⟨_, b, bs⟩ := t
  cases h with
  | last hab => exact hab
  | cons hab => exact hab

/-- Streams in both texts stand before tokens of one kind. -/
theorem kind (h : c.Alike s t) : s.kind = t.kind := h.current.kind

/-- A stream in both texts is not at the end of the first one. -/
theorem kind_ne (h : c.Alike s t) : s.kind ≠ .endOfFile := by
  obtain ⟨_, a, as⟩ := s
  obtain ⟨_, b, bs⟩ := t
  cases h with
  | last _ hlast =>
    rintro hkind
    rw [show a.kind = .endOfFile from hkind] at hlast
    cases hlast
  | cons _ hne => exact hne

/-- The second text has more tokens than the first one by those that follow its end. -/
theorem fuel_eq (h : c.Alike s t) : t.fuel = s.fuel + c.ahead.length := by
  have hlength {as bs : List Token} (h : c.Matches as bs) :
      bs.length = as.length + c.ahead.length := by
    induction h with
    | last => simp only [List.length_cons, List.length_nil]; omega
    | cons _ _ _ _ ih => simp only [List.length_cons, ih]; omega
  exact hlength h

/-- The first text has no more tokens left than the second one. -/
theorem fuel_le (h : c.Alike s t) : s.fuel ≤ t.fuel := h.fuel_eq ▸ Nat.le_add_right ..

/-- Tokens after the first one are what is left after it. -/
theorem of_ahead (hs : s.kind ≠ .endOfFile) (ht : t.kind ≠ .endOfFile)
    (h : c.Matches s.ahead t.ahead) : c.Alike s.tail t.tail := by
  obtain ⟨_, a, as⟩ := s
  obtain ⟨_, b, bs⟩ := t
  cases h with
  | last hab hlast hstop =>
    rw [TokenStream.tail_eq_of_ahead hs rfl, TokenStream.tail_eq_of_ahead ht rfl]
    exact .last hab hlast hstop
  | cons hab hne hdedent hmore =>
    rw [TokenStream.tail_eq_of_ahead hs rfl, TokenStream.tail_eq_of_ahead ht rfl]
    exact .cons hab hne hdedent hmore

/-- After a token both streams go on, or the first text is at its end. -/
theorem reached_tail (h : c.Alike s t) : c.Reached s.tail t.tail := by
  have hs := h.kind_ne
  have ht : t.kind ≠ .endOfFile := h.kind ▸ hs
  obtain ⟨_, a, as⟩ := s
  obtain ⟨_, b, bs⟩ := t
  cases h with
  | last _ _ hstop =>
    rw [TokenStream.tail_eq_of_ahead hs rfl, TokenStream.tail_eq_of_ahead ht rfl]
    exact .inr ⟨hstop, rfl, rfl⟩
  | cons _ _ _ hmore => exact .inl (of_ahead hs ht hmore)

/-- Inside a line the streams go on. -/
theorem tail (h : c.Alike s t) (hgo : s.kind.goesOn = true) : c.Alike s.tail t.tail := by
  have hs := h.kind_ne
  have ht : t.kind ≠ .endOfFile := h.kind ▸ hs
  obtain ⟨_, a, as⟩ := s
  obtain ⟨_, b, bs⟩ := t
  cases h with
  | last _ hlast => cases hgo.symm.trans hlast
  | cons _ _ _ hmore => exact of_ahead hs ht hmore

/-- Inside a line no block ends. -/
theorem kind_tail_ne (h : c.Alike s t) (hgo : s.kind.goesOn = true) : s.tail.kind ≠ .dedent := by
  have hs := h.kind_ne
  obtain ⟨_, a, as⟩ := s
  obtain ⟨_, b, bs⟩ := t
  cases h with
  | last _ hlast => cases hgo.symm.trans hlast
  | cons _ _ hdedent _ =>
    rw [TokenStream.tail_eq_of_ahead hs rfl]
    intro hfirst
    cases hgo.symm.trans (hdedent hfirst)

/-- Inside a line the next token is the same. -/
theorem peek (h : c.Alike s t) (hgo : s.kind.goesOn = true) : s.peek 1 = t.peek 1 := by
  obtain ⟨_, a, as⟩ := s
  obtain ⟨_, b, bs⟩ := t
  cases h with
  | last _ hlast => cases hgo.symm.trans hlast
  | cons _ _ _ hmore =>
    cases hmore with
    | last hab => exact hab.kind
    | cons hab => exact hab.kind

end Comparison.Alike

namespace Comparison.Reached

/-- Streams in both texts need not be at the end of the first one. -/
theorem of_alike (h : c.Alike s t) : c.Reached s t := .inl h

/-- The second text has more tokens than the first one by those that follow its end. -/
theorem fuel_eq (h : c.Reached s t) : t.fuel = s.fuel + c.ahead.length := by
  obtain h | h := h
  · exact h.fuel_eq
  · rw [TokenStream.fuel, TokenStream.fuel, h.ahead, (List.cons.inj h.tokens).2]
    exact Nat.add_comm ..

/-- The first text has no more tokens left than the second one. -/
theorem fuel_le (h : c.Reached s t) : s.fuel ≤ t.fuel := h.fuel_eq ▸ Nat.le_add_right ..

/-- Before its end, the first text goes on as the second one does. -/
theorem alike (h : c.Reached s t) (hs : s.kind ≠ .endOfFile) : c.Alike s t :=
  h.resolve_right fun hdone => hs hdone.kind

/-- A question that the end of the first text answers like what comes after it has the same answer
in both texts. -/
theorem decide_eq (h : c.Reached s t) {p : TokenKind → Bool} (hp : p .endOfFile = p c.next.kind) :
    p s.kind = p t.kind := by
  obtain h | h := h
  · rw [h.kind]
  · obtain ⟨hnext, -⟩ := List.cons.inj h.tokens
    rw [h.kind, hp, TokenStream.kind, hnext]

/-- A block goes on in both texts or in neither. -/
theorem continuesBlock_eq (h : c.Reached s t) :
    Parse.continuesBlock s.kind = Parse.continuesBlock t.kind :=
  h.decide_eq c.next_kind.symm

/-- Where a block goes on, the first text is not at its end. -/
theorem alike_of_continuesBlock (h : c.Reached s t) (hs : Parse.continuesBlock s.kind = true) :
    c.Alike s t ∧ s.kind ≠ .dedent := by
  refine ⟨h.alike fun hkind => ?_, fun hkind => ?_⟩
  · rw [hkind] at hs
    cases hs
  · rw [hkind] at hs
    cases hs

/-- Both texts answer alike whether a token with which a block goes on stands there. -/
theorem eq_of_continuesBlock (h : c.Reached s t) {kind : TokenKind}
    (hkind : Parse.continuesBlock kind = true) : s.kind = kind ↔ t.kind = kind := by
  obtain h | h := h
  · rw [h.kind]
  · obtain ⟨hnext, -⟩ := List.cons.inj h.tokens
    rw [h.kind, TokenStream.kind, hnext]
    refine iff_of_false ?_ ?_
    · rintro rfl
      cases hkind
    · rintro rfl
      cases hkind.symm.trans c.next_kind

end Comparison.Reached

/-- The tokens of a text and the same tokens at the beginning of a second one. -/
theorem Lined.reached {lines lines' : List Token} {stop : Token} (h : Lined lines)
    (hstop : stop.kind = .endOfFile) (hlike : List.Forall₂ c.Like lines lines')
    (hs : s.tokens = lines ++ [stop]) (ht : t.tokens = lines' ++ c.next :: c.ahead) :
    c.Reached s t := by
  cases hlike with
  | nil =>
    obtain ⟨hcurrent, hahead⟩ := List.cons.inj hs
    exact .inr ⟨(congrArg Token.kind hcurrent).trans hstop, hahead, ht⟩
  | @cons a b lines lines' hab hlike =>
    have hmatches : ∀ a b lines lines', Lined (a :: lines) → c.Like a b →
        List.Forall₂ c.Like lines lines' →
        c.Matches (a :: lines ++ [stop]) (b :: lines' ++ c.next :: c.ahead) := by
      intro a b lines lines' h hab hlike
      induction hlike generalizing a b with
      | nil => exact .last hab (h.last a.kind rfl) hstop
      | @cons first first' lines lines' hfirst _ ih =>
        obtain ⟨hdedent, hblocks⟩ := List.isChain_cons_cons.1 h.blocks
        refine .cons hab (h.inside a (List.mem_cons_self ..)) hdedent (ih first first' ?_ hfirst)
        exact ⟨hblocks, h.last, fun t ht => h.inside t (List.mem_cons_of_mem a ht)⟩
    refine .inl ?_
    rw [Comparison.Alike, hs, ht]
    exact hmatches a b lines lines' h hab hlike

namespace Parse

variable {α β γ δ : Type}

/-- What the first reading comes to in the first text, the second one comes to in the second text,
up to spans, where the streams are related before and after it. -/
def AgreeFrom (c : Comparison) (R : TokenStream → TokenStream → Prop) (F : (Span → Span) → α → γ)
    (S : α → TokenStream → TokenStream → Prop) (p q : Parse α) : Prop :=
  ∀ ⦃s t⦄, R s t → ∀ ⦃a u⦄, p s = .ok (a, u) →
    ∃ b v, q t = .ok (b, v) ∧ F c.left a = F c.right b ∧ S a u v

/-- Readings that agree inside a line. -/
abbrev Agree (c : Comparison) (F : (Span → Span) → α → γ) (p q : Parse α) : Prop :=
  AgreeFrom c c.Alike F (fun _ => c.Alike) p q

/-- Readings that agree inside a line where the first stream has a property. -/
abbrev AgreeOn (c : Comparison) (P : TokenStream → Prop) (F : (Span → Span) → α → γ)
    (p q : Parse α) : Prop :=
  AgreeFrom c (fun s t => c.Alike s t ∧ P s) F (fun _ => c.Alike) p q

/-- A list of what spans are replaced in. -/
abbrev each (F : (Span → Span) → α → γ) (f : Span → Span) : List α → List γ := List.map (F f)

/-- What spans are replaced in, if it is there. -/
abbrev perhaps (F : (Span → Span) → α → γ) (f : Span → Span) : Option α → Option γ :=
  Option.map (F f)

/-- Two things in which spans are replaced. -/
abbrev both (F : (Span → Span) → α → γ) (G : (Span → Span) → β → δ) (f : Span → Span) :
    α × β → γ × δ := Prod.map (F f) (G f)

/-- One of two things in which spans are replaced. -/
abbrev either (F : (Span → Span) → α → γ) (G : (Span → Span) → β → δ) (f : Span → Span) :
    α ⊕ β → γ ⊕ δ := Sum.map (F f) (G f)

/-- What holds no spans. -/
abbrev plain (_ : Span → Span) : α → α := id

/-- How streams are related after a round of a loop: as before it, or as after the loop. -/
def AfterRound (R : TokenStream → TokenStream → Prop) (T : β → TokenStream → TokenStream → Prop) :
    α ⊕ β → TokenStream → TokenStream → Prop
  | .inl _ => R
  | .inr b => T b

namespace AgreeFrom

variable {R : TokenStream → TokenStream → Prop} {S : α → TokenStream → TokenStream → Prop}
  {T : β → TokenStream → TokenStream → Prop} {F : (Span → Span) → α → γ}
  {G : (Span → Span) → β → δ}

/-! ## Steps -/

section Steps

variable {p q : Parse α} {k l : α → Parse β}

/-- Readings agree still when less is asked of the streams after them, and more of those before. -/
theorem mono (h : AgreeFrom c R F S p q) {R' : TokenStream → TokenStream → Prop}
    {S' : α → TokenStream → TokenStream → Prop} (hR : ∀ ⦃s t⦄, R' s t → R s t)
    (hS : ∀ ⦃a s t⦄, S a s t → S' a s t) : AgreeFrom c R' F S' p q := by
  intro s t hst a u ha
  obtain ⟨b, v, hb, hab, huv⟩ := h (hR hst) ha
  exact ⟨b, v, hb, hab, hS huv⟩

/-- Readings that agree do so where the first stream has a property. -/
theorem on (h : AgreeFrom c R F S p q) {P : TokenStream → Prop} :
    AgreeFrom c (fun s t => R s t ∧ P s) F S p q :=
  h.mono (fun _ _ => And.left) fun _ _ _ => id

/-- Readings that take nothing agree when they come to the same, up to spans. -/
theorem pureOf {a b : α} (h : F c.left a = F c.right b) (hS : ∀ ⦃s t⦄, R s t → S a s t) :
    AgreeFrom c R F S (pure a) (pure b) := by
  intro s t hst a' u ha
  obtain ⟨rfl, rfl⟩ := pure_eq_ok.1 ha
  exact ⟨b, t, rfl, h, hS hst⟩

/-- Readings that take nothing leave the streams related as they were. -/
theorem pure {a b : α} (h : F c.left a = F c.right b) :
    AgreeFrom c R F (fun _ => R) (pure a) (pure b) :=
  pureOf h fun _ _ => id

/-- Readings agree one after the other when they agree one by one. -/
theorem bind (hp : AgreeFrom c R F S p q)
    (hk : ∀ a b, F c.left a = F c.right b → AgreeFrom c (S a) G T (k a) (l b)) :
    AgreeFrom c R G T (p >>= k) (q >>= l) := by
  intro s t hst b u hb
  obtain ⟨a, v, ha, hb⟩ := bind_eq_ok.1 hb
  obtain ⟨a', v', ha', haa', hvv'⟩ := hp hst ha
  obtain ⟨b', u', hb', hbb', huu'⟩ := hk a a' haa' hvv' hb
  exact ⟨b', u', bind_eq_ok.2 ⟨a', v', ha', hb'⟩, hbb', huu'⟩

/-- Readings agree on what is there when they agree on what it is. -/
theorem some (hp : Agree c F p q) :
    Agree c (perhaps F) (Option.some <$> p) (Option.some <$> q) := by
  rw [map_eq_pure_bind, map_eq_pure_bind]
  exact hp.bind fun a b hab => pure (congrArg Option.some hab)

/-- Readings that look at their streams agree when they do for all related streams. -/
protected theorem get {k l : TokenStream → Parse β}
    (hk : ∀ s t, R s t → AgreeFrom c R G T (k s) (l t)) :
    AgreeFrom c R G T (get >>= k) (get >>= l) :=
  fun s t hst _ _ hb => hk s t hst hst hb

/-- Readings that ask something of their streams agree when both streams have the same answer. -/
theorem getIf {C : TokenStream → Prop} [DecidablePred C] {p q p' q' : Parse β}
    (hC : ∀ ⦃s t⦄, R s t → (C s ↔ C t))
    (h : AgreeFrom c (fun s t => R s t ∧ C s) G T p q) (h' : AgreeFrom c R G T p' q') :
    AgreeFrom c R G T (get >>= fun s => if C s then p else p')
      (get >>= fun t => if C t then q else q') := by
  intro s t hst b u hb
  rw [get_bind] at hb ⊢
  by_cases hs : C s
  · rw [if_pos hs] at hb
    rw [if_pos ((hC hst).1 hs)]
    exact h ⟨hst, hs⟩ hb
  · rw [if_neg hs] at hb
    rw [if_neg fun ht => hs ((hC hst).2 ht)]
    exact h' hst hb

/-- The kind of the next token, which satisfies what is known of it. -/
theorem kindOf {P : TokenKind → Prop} {k l : TokenKind → Parse β}
    (hk : ∀ kind, P kind →
      AgreeFrom c (fun s t => c.Alike s t ∧ s.kind = kind) G T (k kind) (l kind)) :
    AgreeFrom c (fun s t => c.Alike s t ∧ P s.kind) G T (Parse.kind >>= k) (Parse.kind >>= l) := by
  rintro s t ⟨hst, hs⟩ b u hb
  rw [kind_bind] at hb ⊢
  rw [← hst.kind]
  exact hk s.kind hs ⟨hst, rfl⟩ hb

/-- Readings that look at a kind agree when they do for every kind, before a token of which it is.
-/
theorem kindOn {k l : TokenKind → Parse β}
    (hk : ∀ kind, AgreeFrom c (fun s t => c.Alike s t ∧ s.kind = kind) G T (k kind) (l kind)) :
    AgreeFrom c c.Alike G T (Parse.kind >>= k) (Parse.kind >>= l) :=
  (kindOf (P := fun _ => True) fun kind _ => hk kind).mono (fun _ _ h => ⟨h, trivial⟩)
    fun _ _ _ => id

/-- Readings that look at a kind agree when they do for every kind. -/
theorem kind {k l : TokenKind → Parse β} (hk : ∀ kind, AgreeFrom c c.Alike G T (k kind) (l kind)) :
    AgreeFrom c c.Alike G T (Parse.kind >>= k) (Parse.kind >>= l) :=
  kindOn fun kind => (hk kind).on

/-- Readings that ask something of a kind agree when both kinds have the same answer. -/
theorem kindIf {more : TokenKind → Bool} {p q p' q' : Parse β}
    (hmore : ∀ ⦃s t⦄, R s t → more s.kind = more t.kind)
    (h : AgreeFrom c (fun s t => R s t ∧ more s.kind = true) G T p q)
    (h' : AgreeFrom c R G T p' q') :
    AgreeFrom c R G T (Parse.kind >>= fun kind => if more kind then p else p')
      (Parse.kind >>= fun kind => if more kind then q else q') :=
  getIf (C := fun s => more s.kind = true) (fun _ _ hst => by rw [hmore hst]) h h'

/-- After a token inside a line no block ends. -/
theorem advanceIn {P : TokenStream → Prop} {k l : Token → Parse β}
    (hgo : ∀ s, P s → s.kind.goesOn = true)
    (hk : ∀ s t, P s → c.Alike s t →
      AgreeFrom c (fun s t => c.Alike s t ∧ s.kind ≠ .dedent) G T (k s.current) (l t.current)) :
    AgreeFrom c (fun s t => c.Alike s t ∧ P s) G T (advance >>= k) (advance >>= l) := by
  rintro s t ⟨hst, hs⟩ _ _ hb
  exact hk s t hs hst ⟨hst.tail (hgo s hs), hst.kind_tail_ne (hgo s hs)⟩ hb

/-- Inside a line both readings take the same token. -/
theorem advanceOn {P : TokenStream → Prop} {k l : Token → Parse β}
    (hgo : ∀ s, P s → s.kind.goesOn = true)
    (hk : ∀ s t, P s → c.Alike s t → AgreeFrom c c.Alike G T (k s.current) (l t.current)) :
    AgreeFrom c (fun s t => c.Alike s t ∧ P s) G T (advance >>= k) (advance >>= l) :=
  advanceIn hgo fun s t hs hst => (hk s t hs hst).on

/-- Both readings take the same token, of a kind that does not end a line. -/
protected theorem advance {kind : TokenKind} (hgo : kind.goesOn = true) {k l : Token → Parse β}
    (hk : ∀ a b, a.kind = kind → c.Like a b → AgreeFrom c c.Alike G T (k a) (l b)) :
    AgreeFrom c (fun s t => c.Alike s t ∧ s.kind = kind) G T (advance >>= k) (advance >>= l) :=
  advanceOn (fun _ hs => hs ▸ hgo) fun _ _ hs hst => hk _ _ hs hst.current

/-- After a token of one kind, before which one of the other kind has been seen ahead. -/
theorem advanceTo {kind next : TokenKind} (hgo : kind.goesOn = true) (hnext : next ≠ .endOfFile)
    {P : TokenStream → Prop} (hP : ∀ s, P s → s.peek 1 = next) {k l : Token → Parse β}
    (hk : ∀ a b, a.kind = kind → c.Like a b →
      AgreeFrom c (fun s t => c.Alike s t ∧ s.kind = next) G T (k a) (l b)) :
    AgreeFrom c (fun s t => (c.Alike s t ∧ s.kind = kind) ∧ P s) G T (advance >>= k)
      (advance >>= l) := by
  rintro s t ⟨⟨hst, hs⟩, hpeek⟩ b u hb
  have htail := TokenStream.kind_tail_of_peek hst.kind_ne hnext (hP s hpeek)
  exact hk _ _ hs hst.current ⟨hst.tail (hs ▸ hgo), htail⟩ hb

/-- Spans that begin where spans begin of which the same counts are such spans, too. -/
theorem spanFrom {a b : Span} (hab : c.left a = c.right b) {k l : Span → Parse β}
    (hk : ∀ a b, c.left a = c.right b → AgreeFrom c R G T (k a) (l b)) :
    AgreeFrom c R G T (spanFrom a >>= k) (spanFrom b >>= l) := by
  intro s t hst _ _ hb
  refine hk _ _ ?_ hst hb
  rw [c.left_through, c.right_through, hab]

/-- Both readings take a token of an expected kind that does not end a line. -/
theorem expect {kind : TokenKind} (hgo : kind.goesOn = true) {k l : Token → Parse β}
    (hk : ∀ a b, a.kind = kind → c.Like a b → AgreeFrom c c.Alike G T (k a) (l b)) :
    AgreeFrom c c.Alike G T (expect kind >>= k) (expect kind >>= l) := by
  intro s t hst b u hb
  rw [expect_bind_eq_ok] at hb
  obtain ⟨hkind, hb⟩ := hb
  obtain ⟨b', u', hb', hbb', huu'⟩ := hk _ _ hkind hst.current (hst.tail (hkind ▸ hgo)) hb
  exact ⟨b', u', expect_bind_eq_ok.2 ⟨hst.kind ▸ hkind, hb'⟩, hbb', huu'⟩

/-- Both readings find a token of a kind that does not end a line, or neither does. -/
theorem skip? {kind : TokenKind} (hgo : kind.goesOn = true) {k l : Bool → Parse β}
    (hk : ∀ found, AgreeFrom c c.Alike G T (k found) (l found)) :
    AgreeFrom c c.Alike G T (skip? kind >>= k) (skip? kind >>= l) := by
  intro s t hst b u hb
  rw [skip?_bind_eq_ok] at hb
  obtain ⟨hkind, hb⟩ | ⟨hkind, hb⟩ := hb
  · obtain ⟨b', u', hb', hbb', huu'⟩ := hk true (hst.tail (hkind ▸ hgo)) hb
    exact ⟨b', u', skip?_bind_eq_ok.2 (.inl ⟨hst.kind ▸ hkind, hb'⟩), hbb', huu'⟩
  · obtain ⟨b', u', hb', hbb', huu'⟩ := hk false hst hb
    exact ⟨b', u', skip?_bind_eq_ok.2 (.inr ⟨hst.kind ▸ hkind, hb'⟩), hbb', huu'⟩

/-- Readings that branch on one condition agree when both branches do. -/
theorem ite {C : Prop} [Decidable C] {p' q' : Parse α} (h : C → AgreeFrom c R F S p q)
    (h' : ¬C → AgreeFrom c R F S p' q') :
    AgreeFrom c R F S (if C then p else p') (if C then q else q') := by
  split
  · exact h ‹C›
  · exact h' ‹¬C›

/-- A reading that fails agrees with any other. -/
theorem unexpected {q : Parse α} : AgreeFrom c R F S unexpected q :=
  fun _ _ _ _ _ h => absurd h unexpected_ne_ok

/-- A reading that fails for an expectation agrees with any other. -/
theorem unexpectedFor {expectation : String} {q : Parse α} :
    AgreeFrom c R F S (unexpectedFor expectation) q :=
  fun _ _ _ _ _ h => absurd h unexpectedFor_ne_ok

end Steps

/-! ## Where a line ends -/

section Ends

variable {p q : Parse β} {k l : Token → Parse β}

/-- A reading that fails at the end of the text agrees where that end may be. -/
theorem reached (hend : ∀ s b u, s.kind = .endOfFile → p s ≠ .ok (b, u))
    (h : AgreeFrom c c.Alike G T p q) : AgreeFrom c c.Reached G T p q :=
  fun s _ hst b u hb => h (hst.alike fun hs => hend s b u hs hb) hb

/-- After any token the first text may have ended. -/
theorem advanceOut (hk : ∀ a b, AgreeFrom c c.Reached G T (k a) (l b)) :
    AgreeFrom c c.Alike G T (advance >>= k) (advance >>= l) :=
  fun _ _ hst _ _ hb => hk _ _ hst.reached_tail hb

/-- After an expected token the first text may be at its end. -/
theorem expectOut {kind : TokenKind} (hk : ∀ a b, AgreeFrom c c.Reached G T (k a) (l b)) :
    AgreeFrom c c.Alike G T (Parse.expect kind >>= k) (Parse.expect kind >>= l) := by
  intro s t hst b u hb
  rw [expect_bind_eq_ok] at hb
  obtain ⟨b', u', hb', hbb', huu'⟩ := hk _ _ hst.reached_tail hb.2
  exact ⟨b', u', expect_bind_eq_ok.2 ⟨hst.kind ▸ hb.1, hb'⟩, hbb', huu'⟩

/-- At the end of the first text an expected token is not found, so that only streams before it
count. -/
theorem expectAfter {kind : TokenKind} (hkind : kind ≠ .endOfFile)
    (hk : AgreeFrom c c.Alike G T (Parse.expect kind >>= k) (Parse.expect kind >>= l)) :
    AgreeFrom c c.Reached G T (Parse.expect kind >>= k) (Parse.expect kind >>= l) := by
  refine reached (fun s b u hs hb => hkind ?_) hk
  rw [← (expect_bind_eq_ok.1 hb).1, hs]

/-- After a token that is skipped the first text may be at its end. -/
theorem skipOut (hR : ∀ ⦃s t⦄, R s t → c.Alike s t) {kind : TokenKind} {k l : Bool → Parse β}
    (hfound : AgreeFrom c c.Reached G T (k true) (l true))
    (hnone : AgreeFrom c R G T (k false) (l false)) :
    AgreeFrom c R G T (Parse.skip? kind >>= k) (Parse.skip? kind >>= l) := by
  intro s t hst b u hb
  rw [skip?_bind_eq_ok] at hb
  obtain ⟨hkind, hb⟩ | ⟨hkind, hb⟩ := hb
  · obtain ⟨b', u', hb', hbb', huu'⟩ := hfound (hR hst).reached_tail hb
    exact ⟨b', u', skip?_bind_eq_ok.2 (.inl ⟨(hR hst).kind ▸ hkind, hb'⟩), hbb', huu'⟩
  · obtain ⟨b', u', hb', hbb', huu'⟩ := hnone hst hb
    exact ⟨b', u', skip?_bind_eq_ok.2 (.inr ⟨(hR hst).kind ▸ hkind, hb'⟩), hbb', huu'⟩

/-- A clause that goes on with a statement may follow in the first text only, where it is read. -/
theorem skipClause {kind : TokenKind} (hkind : continuesBlock kind = true) {k l : Bool → Parse β}
    (hfound : AgreeFrom c c.Alike G T (k true) (l true))
    (hnone : AgreeFrom c c.Reached G T (k false) (l false)) :
    AgreeFrom c c.Reached G T (Parse.skip? kind >>= k) (Parse.skip? kind >>= l) := by
  intro s t hst b u hb
  rw [skip?_bind_eq_ok] at hb
  obtain ⟨hs, hb⟩ | ⟨hs, hb⟩ := hb
  · obtain ⟨halike, -⟩ := hst.alike_of_continuesBlock (hs ▸ hkind)
    have hgo : kind.goesOn = true := by cases kind <;> first | rfl | cases hkind
    obtain ⟨b', u', hb', hbb', huu'⟩ := hfound (halike.tail (hs ▸ hgo)) hb
    exact ⟨b', u', skip?_bind_eq_ok.2 (.inl ⟨(hst.eq_of_continuesBlock hkind).1 hs, hb'⟩), hbb',
      huu'⟩
  · obtain ⟨b', u', hb', hbb', huu'⟩ := hnone hst hb
    refine ⟨b', u', skip?_bind_eq_ok.2 (.inr ⟨fun ht => hs ?_, hb'⟩), hbb', huu'⟩
    exact (hst.eq_of_continuesBlock hkind).2 ht

end Ends

/-! ## Loops -/

section Loops

variable {item item' : Parse α}

/-- The second text may leave more rounds to a loop than it takes. -/
theorem loop {round round' : α → Parse (α ⊕ β)} (hfuel : ∀ ⦃s t⦄, R s t → s.fuel ≤ t.fuel)
    (hround : ∀ a b, F c.left a = F c.right b →
      AgreeFrom c R (either F G) (AfterRound R T) (round a) (round' b)) {a b : α}
    (hab : F c.left a = F c.right b) : AgreeFrom c R G T (loop round a) (loop round' b) := by
  have hrounds : ∀ n m a b, n ≤ m → F c.left a = F c.right b → AgreeFrom c R G T
      (rounds (throw .exhausted) round n a) (rounds (throw .exhausted) round' m b) := by
    intro n
    induction n with
    | zero => exact fun _ _ _ _ _ _ _ _ _ _ h => absurd h throw_ne_ok
    | succ n ih =>
      intro m a b hm hab
      obtain ⟨m, rfl⟩ : ∃ i, m = i + 1 := ⟨m - 1, by omega⟩
      rw [rounds, rounds]
      refine bind (hround a b hab) fun d e hde => ?_
      cases d with
      | inl d =>
        cases e with
        | inl e => exact ih m d e (by omega) (Sum.inl.inj hde)
        | inr e => cases hde
      | inr d =>
        cases e with
        | inl e => cases hde
        | inr e => exact pureOf (Sum.inr.inj hde) fun _ _ => id
  exact fun s t hst _ _ h => hrounds _ _ a b (hfuel hst) hab hst h

/-- Lists that are the same up to spans stay so with one element more. -/
theorem each_append {found found' : List α} {a b : α}
    (h : each F c.left found = each F c.right found') (hab : F c.left a = F c.right b) :
    each F c.left (found ++ [a]) = each F c.right (found' ++ [b]) := by
  have h : found.map (F c.left) = found'.map (F c.right) := h
  rw [each, each, List.map_append, List.map_append, h, List.map_singleton, List.map_singleton, hab]

/-- Loops agree when their items do and both go on at the same places. -/
theorem manyWhile {more : TokenStream → Bool} (hfuel : ∀ ⦃s t⦄, R s t → s.fuel ≤ t.fuel)
    (hmore : ∀ ⦃s t⦄, R s t → more s = more t)
    (hitem : AgreeFrom c (fun s t => R s t ∧ more s = true) F (fun _ => R) item item') :
    AgreeFrom c R (each F) (fun _ => R) (manyWhile more item) (manyWhile more item') := by
  refine loop (F := each F) hfuel (fun found found' hfound s t hst r u hr => ?_) rfl
  rw [get_bind, ite_eq_ok, bind_eq_ok] at hr
  obtain ⟨hs, a, v, ha, hr⟩ | ⟨hs, hr⟩ := hr
  · obtain ⟨b, v', hb, hab, hvv'⟩ := hitem ⟨hst, hs⟩ ha
    obtain ⟨rfl, rfl⟩ := pure_eq_ok.1 hr
    refine ⟨.inl (found' ++ [b]), v', ?_, congrArg Sum.inl (each_append hfound hab), hvv'⟩
    rw [get_bind, if_pos (hmore hst ▸ hs)]
    exact bind_eq_ok.2 ⟨b, v', hb, rfl⟩
  · obtain ⟨rfl, rfl⟩ := pure_eq_ok.1 hr
    refine ⟨.inr found', t, ?_, congrArg Sum.inr hfound, hst⟩
    rw [get_bind, if_neg (hmore hst ▸ hs)]
    rfl

/-- Items up to a place before the end of the first text, which is what reading on depends on. -/
theorem itemsThen {more : TokenStream → Bool} {k l : List α → Parse β}
    (hend : ∀ s, s.kind = .endOfFile → more s = false)
    (hmore : ∀ ⦃s t⦄, c.Alike s t → more s = more t)
    (hitem : AgreeFrom c (fun s t => c.Alike s t ∧ more s = true) F (fun _ => c.Reached) item item')
    (hk : ∀ a b, each F c.left a = each F c.right b → AgreeFrom c c.Alike G T (k a) (l b))
    (hstop : ∀ a s b u, s.kind = .endOfFile → k a s ≠ .ok (b, u)) :
    AgreeFrom c c.Reached G T (Parse.manyWhile more item >>= k)
      (Parse.manyWhile more item' >>= l) := by
  -- the rounds agree as long as the first text is not at its end, for any bound that is not lower
  have hrounds : ∀ n m found found' ⦃s t⦄, n ≤ m → each F c.left found = each F c.right found' →
      c.Reached s t → ∀ ⦃all u⦄, rounds (throw .exhausted) (itemRound more item) n found s =
        .ok (all, u) → u.kind ≠ .endOfFile → ∃ all' v,
          rounds (throw .exhausted) (itemRound more item') m found' t = .ok (all', v) ∧
            each F c.left all = each F c.right all' ∧ c.Alike u v := by
    intro n
    induction n with
    | zero => exact fun _ _ _ _ _ _ _ _ _ _ h => absurd h throw_ne_ok
    | succ n ih =>
      intro m found found' s t hm hfound hst all u h hu
      obtain ⟨m, rfl⟩ : ∃ i, m = i + 1 := ⟨m - 1, by omega⟩
      obtain ⟨next, v, hround, h⟩ := bind_eq_ok.1 h
      by_cases hs : more s = true
      · have hst := hst.alike fun hkind => by
          rw [hend s hkind] at hs
          cases hs
        rw [itemRound, get_bind, if_pos hs] at hround
        obtain ⟨a, w, ha, hround⟩ := bind_eq_ok.1 hround
        obtain ⟨rfl, rfl⟩ := pure_eq_ok.1 hround
        obtain ⟨a', v', ha', haa', hvv'⟩ := hitem ⟨hst, hs⟩ ha
        obtain ⟨all', u', h', hall, huu'⟩ := ih m _ _ (by omega) (each_append hfound haa') hvv' h hu
        exact ⟨all', u', bind_eq_ok.2 ⟨_, v', itemRound_of_more (hmore hst ▸ hs) ha', h'⟩, hall,
          huu'⟩
      · have hdone := Bool.eq_false_iff.2 hs
        rw [itemRound_of_done hdone] at hround
        obtain ⟨rfl, rfl⟩ := Prod.mk.inj (Except.ok.inj hround)
        obtain ⟨rfl, rfl⟩ := pure_eq_ok.1 h
        have hst := hst.alike hu
        exact ⟨found', t, bind_eq_ok.2 ⟨_, t, itemRound_of_done (hmore hst ▸ hdone), rfl⟩, hfound,
          hst⟩
  intro s t hst b u hb
  obtain ⟨all, v, hall, hb⟩ := bind_eq_ok.1 hb
  obtain ⟨all', v', hall', heach, hvv'⟩ := hrounds _ _ [] [] hst.fuel_le rfl hst hall
    fun hv => hstop all v b u hv hb
  obtain ⟨b', u', hb', hbb', huu'⟩ := hk all all' heach hvv' hb
  exact ⟨b', u', bind_eq_ok.2 ⟨all', v', hall', hb'⟩, hbb', huu'⟩

/-- Both loops go into another round. -/
theorem nextRound {a b : α} (h : F c.left a = F c.right b) :
    AgreeFrom c R (either F G) (AfterRound R T) (Pure.pure (.inl a)) (Pure.pure (.inl b)) :=
  pureOf (congrArg Sum.inl h) fun _ _ => id

/-- Both loops end in this round. -/
theorem lastRound {a b : β} (h : G c.left a = G c.right b) :
    AgreeFrom c R (either F G) (AfterRound R fun _ => R) (Pure.pure (.inr a))
      (Pure.pure (.inr b)) :=
  pureOf (congrArg Sum.inr h) fun _ _ => id

/-- Items after commas agree when one item does. -/
theorem afterCommas {atEnd : TokenKind → Bool} (hitem : Agree c F item item') :
    Agree c (each F) (afterCommas atEnd item) (afterCommas atEnd item') := by
  refine loop (F := each F) (fun _ _ h => h.fuel_le) (fun found found' hfound => ?_) rfl
  refine skip? rfl fun comma => ite (fun _ => lastRound hfound) fun _ => ?_
  refine kind fun kind => ite (fun _ => lastRound hfound) fun _ => ?_
  exact hitem.bind fun a b hab => nextRound (each_append hfound hab)

/-- Items up to a closing token agree when one item does. -/
theorem untilClosed {closing : TokenKind} (hitem : Agree c F item item') :
    Agree c (each F) (untilClosed closing item) (untilClosed closing item') := by
  refine loop (F := each F) (fun _ _ h => h.fuel_le) (fun found found' hfound => ?_) rfl
  refine kind fun kind => ite (fun _ => lastRound hfound) fun _ => ?_
  refine hitem.bind fun a b hab => skip? rfl fun comma => ite (fun _ => ?_) fun _ => ?_
  · exact nextRound (each_append hfound hab)
  · exact lastRound (each_append hfound hab)

end Loops

end AgreeFrom

end Parse

end NoteCheck.Code
