/-
# Renderings are read as what they render

An operand of a level is read by any binding power below `Level.opens`, up to any token that binds
no more strongly than `Level.ends`. For each form of term, its parts being read so makes the form
be read so at its own level (`readsTerm_binary` and the others).
-/
import NoteCheck.Code.Grammar.Stmt
import NoteCheck.Proofs.Grammar.Runs
import NoteCheck.Proofs.Grammar.Term

namespace NoteCheck.Code

/-! ## Words of a stream -/

namespace TokenStream

variable {s t u : TokenStream} {ws vs : List String}

/-- The words that a stream goes through up to another one. None of them is the mark of an
assignment, so no argument of a call is one by name. -/
def Spells : List String → TokenStream → TokenStream → Prop
  | [], s, t => s = t
  | w :: ws, s, t =>
    s.current.Spells w ∧ s.kind ≠ .assign ∧ s.ahead ≠ [] ∧ Spells ws s.tail t

/-- Words that come one after the other are gone through up to a stream between them. -/
theorem spells_append : Spells (ws ++ vs) s u ↔ ∃ t, Spells ws s t ∧ Spells vs t u := by
  induction ws generalizing s with
  | nil => simp [Spells]
  | cons w ws ih => simp [Spells, ih, and_assoc]

/-- A word is not the end of the text, so reading on takes it. -/
theorem fuel_eq_of_spells {w : String} (hw : s.current.Spells w) (hahead : s.ahead ≠ []) :
    s.fuel = s.tail.fuel + 1 ∧ s.peek 1 = s.tail.kind := by
  obtain ⟨next, ahead, hnext⟩ := List.exists_cons_of_ne_nil hahead
  have hkind : s.kind ≠ .endOfFile := Lexeme.kind_ne_endOfFile hw.isWord.alone
  rw [tail_eq_of_ahead hkind hnext]
  simp [fuel, peek, hnext, kind]

/-- A stream has a token for each word that it goes through. -/
theorem Spells.fuel_eq (h : Spells ws s t) : s.fuel = t.fuel + ws.length := by
  induction ws generalizing s with
  | nil =>
    obtain rfl : s = t := h
    rfl
  | cons w ws ih =>
    obtain ⟨hw, -, hahead, hws⟩ := h
    have hfuel := (fuel_eq_of_spells hw hahead).1
    have hrest := ih hws
    rw [List.length_cons]
    omega

/-- A stream that goes through a word has fewer tokens left. -/
theorem Spells.fuel_lt {w : String} (h : Spells (w :: ws) s t) : t.fuel < s.fuel := by
  have hfuel := h.fuel_eq
  rw [List.length_cons] at hfuel
  omega

end TokenStream

/-! ## Levels and binding powers -/

namespace Level

/-- The binding power below which a form of a level is read in full. -/
def opens : Level → BindingPower
  | conditional => .ternary
  | or => .logicalOr
  | and => .logicalAnd
  | not | comparison => .relational
  | bitOr => .bitOr
  | bitXor => .bitXor
  | bitAnd => .bitAnd
  | shift => .shift
  | sum => .additive
  | product => .multiplicative
  | unary | power => .exponent
  | primary => .call

/-- The strongest binding power of a token that ends a form of a level. -/
def ends : Level → BindingPower
  | conditional => .default
  | or => .logicalOr
  | and => .logicalAnd
  | not | comparison => .logicalNot
  | bitOr => .bitOr
  | bitXor => .bitXor
  | bitAnd => .bitAnd
  | shift => .shift
  | sum => .additive
  | product | unary | power => .multiplicative
  | primary => .primary

/-- A higher level is read in full under every binding power under which a lower one is. -/
theorem opens_mono {a b : Level} (h : a.rank ≤ b.rank) : a.opens.rank ≤ b.opens.rank := by
  revert h
  cases a <;> cases b <;> decide

/-- A token that ends a form of a lower level ends one of a higher level. -/
theorem ends_mono {a b : Level} (h : a.rank ≤ b.rank) : a.ends.rank ≤ b.ends.rank := by
  revert h
  cases a <;> cases b <;> decide

end Level

namespace BinaryOp

/-- The binding power with which the operand on the right is read. -/
def rightPower : BinaryOp → BindingPower
  | .pow => .multiplicative
  | operator => operator.power

variable (operator : BinaryOp)

/-- Under the power of an operator, its own form is not read in full. -/
theorem opens_level_le_power : operator.level.opens.rank ≤ operator.power.rank := by
  cases operator <;> decide

/-- The operand on the left holds together at least as strongly as the whole. -/
theorem rank_level_le_leftLevel : operator.level.rank ≤ operator.leftLevel.rank := by
  cases operator <;> decide

/-- The operator does not take the operand on the left apart. -/
theorem power_le_ends_leftLevel : operator.power.rank ≤ operator.leftLevel.ends.rank := by
  cases operator <;> decide

/-- The operand on the right is read in full. -/
theorem rightPower_lt_opens_rightLevel :
    operator.rightPower.rank < operator.rightLevel.opens.rank := by
  cases operator <;> decide

/-- What ends the whole ends the operand on the right. -/
theorem ends_level_le_ends_rightLevel :
    operator.level.ends.rank ≤ operator.rightLevel.ends.rank := by
  cases operator <;> decide

/-- What ends the whole is not read as part of the operand on the right. -/
theorem ends_level_le_rightPower : operator.level.ends.rank ≤ operator.rightPower.rank := by
  cases operator <;> decide

end BinaryOp

/-- The value after a boolean operator is read in full. -/
theorem BoolOp.power_lt_opens (operator : BoolOp) :
    operator.power.rank < operator.level.next.opens.rank := by
  cases operator <;> decide

/-- A boolean operator ends the value before it. -/
theorem BoolOp.power_le_ends (operator : BoolOp) :
    operator.power.rank ≤ operator.level.next.ends.rank := by
  cases operator <;> decide

/-- Every operator that compares has a word. -/
theorem CompareOp.length_words_pos (operator : CompareOp) : 0 < operator.words.length := by
  cases operator <;> decide

/-- A token that continues an expression binds as its continuation does. -/
theorem TokenKind.bindingPower_of_continuation? {kind : TokenKind} {continuation : Continuation}
    (h : kind.continuation? = some continuation) : kind.bindingPower = continuation.power := by
  rw [bindingPower, h]

namespace Parse

/-! ## What is read of a part -/

/-- From a stream on, a rendering of a term is read up to another stream, and can be gone on with:
where the form of the term holds together as strongly as the level. -/
def ReadsTerm (level : Level) (t : Term) (ws : List String) : Prop :=
  ∀ {s u : TokenStream} {n : Nat} {p : BindingPower}, s.Spells ws u → ws.length ≤ n →
    p.rank < level.opens.rank → u.kind.bindingPower.rank ≤ level.ends.rank →
      ∃ e, t.Shows e ∧ Leads (exprWithin n) p s e u

section Terms

variable {s u : TokenStream} {n : Nat} {power : BindingPower} {level : Level} {t : Term}
  {ws us vs : List String}

/-- A term that holds together as strongly as a level does so at every lower one. -/
theorem ReadsTerm.mono {level' : Level} (h : ReadsTerm level' t ws)
    (hlevel : level.rank ≤ level'.rank) : ReadsTerm level t ws := by
  intro s u n power hs hn hpower hends
  have hopens := Level.opens_mono hlevel
  have hends' := Level.ends_mono hlevel
  exact h (n := n) hs hn (by omega) (by omega)

/-- An operand is read up to a token that does not hold it more strongly. -/
theorem ReadsTerm.exprWithin_eq_ok (h : ReadsTerm level t ws) (hs : s.Spells ws u)
    (hn : ws.length < n) (hpower : power.rank < level.opens.rank)
    (hends : u.kind.bindingPower.rank ≤ level.ends.rank)
    (hstop : u.kind.bindingPower.rank ≤ power.rank) :
    ∃ e, t.Shows e ∧ exprWithin n power s = .ok (e, u) := by
  obtain ⟨n, rfl⟩ : ∃ m, n = m + 1 := ⟨n - 1, by omega⟩
  obtain ⟨e, hshows, hleads⟩ := h (n := n) hs (by omega) hpower hends
  exact ⟨e, hshows, hleads.exprOf_eq_ok (Nat.not_lt.2 hstop)⟩

/-- An operand is gone on with by a token that holds it no more strongly than its level. -/
theorem ReadsTerm.goesOn {v : TokenStream} {continuation : Continuation} (h : ReadsTerm level t ws)
    (hs : s.Spells ws v) (hn : ws.length < n)
    (hkind : v.kind.continuation? = some continuation) (hpower : power.rank < level.opens.rank)
    (hholds : power.rank < continuation.power.rank)
    (hends : continuation.power.rank ≤ level.ends.rank) :
    ∃ left, t.Shows left ∧ ∀ {e : Expr} {u : TokenStream},
      continued (exprWithin n) left continuation v = .ok (e, u) → u.fuel < v.fuel →
        Leads (exprWithin n) power s e u := by
  have hheld : v.kind.bindingPower = continuation.power :=
    TokenKind.bindingPower_of_continuation? hkind
  rw [← hheld] at hends
  obtain ⟨left, hshows, hleads⟩ := h hs (Nat.le_of_lt hn) hpower hends
  exact ⟨left, hshows, fun hread hfuel => hleads.continued hkind hholds hread hfuel⟩

/-- A term of any form is read up to a token that holds nothing. -/
theorem ReadsTerm.exprWithin_default (h : ReadsTerm .conditional t ws) (hs : s.Spells ws u)
    (hn : ws.length < n) (hends : u.kind.bindingPower = .default) :
    ∃ e, t.Shows e ∧ exprWithin n .default s = .ok (e, u) := by
  have hrank : u.kind.bindingPower.rank = 0 := by rw [hends]; rfl
  exact h.exprWithin_eq_ok hs hn (by decide) (by omega) (by omega)

/-- An expression begins with a token that opens one. -/
theorem opensExpr_of_exprWithin {e : Expr} (h : exprWithin n power s = .ok (e, u)) :
    s.kind.opensExpr = true := by
  cases n with
  | zero => exact absurd h throw_ne_ok
  | succ n => exact opensExpr_of_exprOf h

/-- No expression is read before a token that opens none. -/
theorem kind_ne_of_exprWithin {e : Expr} (h : exprWithin n power s = .ok (e, u)) {kind : TokenKind}
    (hkind : kind.opensExpr = false) : s.kind ≠ kind := by
  rintro rfl
  rw [opensExpr_of_exprWithin h] at hkind
  cases hkind

/-- An expression that is read before a token that opens none has a word. -/
theorem length_pos_of_exprWithin {e : Expr} (h : exprWithin n power s = .ok (e, u))
    (hs : s.Spells ws u) (hu : u.kind.opensExpr = false) : 0 < ws.length := by
  cases ws with
  | nil =>
    obtain rfl : s = u := hs
    exact absurd rfl (kind_ne_of_exprWithin h hu)
  | cons => exact Nat.succ_pos _

/-! ### Names and numbers -/

/-- A name is read as it is written. -/
theorem readsTerm_name (word : NameWord) : ReadsTerm .primary (.name word) [word.text] := by
  rintro s u n power ⟨hw, -, -, rfl⟩ hn hpower hends
  have hkind : s.kind = .identifier := hw.isWord.unique word.isWord
  refine ⟨_, ?_, leads_of_opened (show s.kind.opening? = some .name by rw [hkind]; rfl) rfl⟩
  rw [hw.text]
  exact .name

/-- A number is read as it is written. -/
theorem readsTerm_number (word : NumberWord) :
    ReadsTerm .primary (.number word) [word.text] := by
  rintro s u n power ⟨hw, -, -, rfl⟩ hn hpower hends
  have hkind : s.kind = .number := hw.isWord.unique word.isWord
  refine ⟨_, ?_, leads_of_opened (show s.kind.opening? = some .number by rw [hkind]; rfl) rfl⟩
  rw [hw.text]
  exact .number

/-! ### Operators -/

/-- An operator between two operands goes on with the operand that is read after it. -/
theorem continued_binary {expr : BindingPower → Parse Expr} {operator : BinaryOp} {left e : Expr}
    (h : expr operator.rightPower s.tail = .ok (e, u)) :
    continued expr left (.binary operator) s =
      .ok (.binary (left.span.through u.last) left operator e, u) := by
  cases operator
  all_goals
    simp only [continued, advance_bind, bind_eq_ok, spanFrom_bind]
    exact ⟨e, u, h, rfl⟩

/-- An operation is read when both operands are read at the levels that its operator asks for. -/
theorem readsTerm_binary {left right : Term} {operator : BinaryOp}
    (hleft : ReadsTerm operator.leftLevel left ws)
    (hright : ReadsTerm operator.rightLevel right vs) :
    ReadsTerm operator.level (.binary left operator right) (ws ++ operator.symbol :: vs) := by
  intro s u n power hs hn hpower hends
  obtain ⟨t, hws, hrest⟩ := TokenStream.spells_append.1 hs
  have hfuel := hrest.fuel_lt
  obtain ⟨hw, -, -, hvs⟩ := hrest
  have hkind : t.kind.continuation? = some (.binary operator) := by
    cases operator <;> exact congrArg TokenKind.continuation? (hw.isWord.kind_eq rfl)
  have hlength : ws.length < n ∧ vs.length < n := by
    simp only [List.length_append, List.length_cons] at hn
    omega
  -- the left operand ends before the operator, and the operator continues it
  obtain ⟨l, hl, hleads⟩ := hleft.goesOn hws hlength.1 hkind
    (Nat.lt_of_lt_of_le hpower (Level.opens_mono operator.rank_level_le_leftLevel))
    (Nat.lt_of_lt_of_le hpower operator.opens_level_le_power) operator.power_le_ends_leftLevel
  obtain ⟨r, hr, hread⟩ := hright.exprWithin_eq_ok hvs hlength.2
    operator.rightPower_lt_opens_rightLevel
    (Nat.le_trans hends operator.ends_level_le_ends_rightLevel)
    (Nat.le_trans hends operator.ends_level_le_rightPower)
  exact ⟨_, .binary hl hr, hleads (continued_binary hread) hfuel⟩

/-- An operator before an operand is read when the operand is. -/
theorem readsTerm_unary {operand : Term} {operator : UnaryOp}
    (h : ReadsTerm operator.level operand ws) :
    ReadsTerm operator.level (.unary operator operand) (operator.word :: ws) := by
  rintro s u n power ⟨hw, -, hahead, hws⟩ hn hpower hends
  have hkind : s.kind.opening? = some (.unary operator) := by
    cases operator <;> exact congrArg TokenKind.opening? (hw.isWord.kind_eq rfl)
  have hopens : operator.power.rank < operator.level.opens.rank := by
    cases operator <;> decide
  have hstop : operator.level.ends.rank ≤ operator.power.rank := by
    cases operator <;> decide
  obtain ⟨e, hshows, hread⟩ := h.exprWithin_eq_ok hws (Nat.lt_of_succ_le hn) hopens hends
    (Nat.le_trans hends hstop)
  refine ⟨.unary (s.current.span.through u.last) operator e, .unary hshows,
    leads_of_opened hkind ?_⟩
  rw [opened, advance_bind, bind_eq_ok]
  exact ⟨e, u, hread, rfl⟩

/-- A conditional expression is read when its three parts are. -/
theorem readsTerm_conditional {test body orelse : Term} (hbody : ReadsTerm .or body us)
    (htest : ReadsTerm .or test vs) (horelse : ReadsTerm .conditional orelse ws) :
    ReadsTerm .conditional (.conditional test body orelse)
      (us ++ "if" :: vs ++ "else" :: ws) := by
  intro s u n power hs hn hpower hends
  rw [List.append_assoc, List.cons_append] at hs
  obtain ⟨t, hus, hrest⟩ := TokenStream.spells_append.1 hs
  have hfuel := hrest.fuel_lt
  obtain ⟨hw, -, -, hvs⟩ := hrest
  obtain ⟨v, hvs, hw', -, -, hws⟩ := TokenStream.spells_append.1 hvs
  have hif : t.kind.continuation? = some .conditional :=
    congrArg TokenKind.continuation? (hw.isWord.kind_eq rfl)
  have helse : v.kind = .kwElse := hw'.isWord.kind_eq rfl
  have hlength : us.length < n ∧ vs.length < n ∧ ws.length < n := by
    simp only [List.length_append, List.length_cons] at hn
    omega
  obtain ⟨b, hb, hleads⟩ := hbody.goesOn hus hlength.1 hif (Nat.lt_trans hpower (by decide)) hpower
    (by decide)
  -- a condition in a condition stands in parentheses, and one after `else` does not
  obtain ⟨c, hc, hreadtest⟩ := htest.exprWithin_eq_ok hvs hlength.2.1
    (show BindingPower.ternary.rank < Level.or.opens.rank by decide)
    (by rw [helse]; decide) (by rw [helse]; decide)
  obtain ⟨o, ho, hreadelse⟩ := horelse.exprWithin_eq_ok hws hlength.2.2
    (show BindingPower.default.rank < Level.conditional.opens.rank by decide) hends hends
  have hread : continued (exprWithin n) b .conditional t =
      .ok (.conditional (b.span.through u.last) c b o, u) := by
    rw [continued, advance_bind, bind_eq_ok]
    refine ⟨c, v, hreadtest, expect_bind_eq_ok.2 ⟨helse, ?_⟩⟩
    exact bind_eq_ok.2 ⟨o, u, hreadelse, rfl⟩
  exact ⟨_, .conditional hc hb ho, hleads hread hfuel⟩

/-- An attribute is read when what it belongs to is. -/
theorem readsTerm_member {value : Term} {attr : NameWord} (h : ReadsTerm .primary value ws) :
    ReadsTerm .primary (.member value attr) (ws ++ [".", attr.text]) := by
  intro s u n power hs hn hpower hends
  obtain ⟨t, hws, hrest⟩ := TokenStream.spells_append.1 hs
  have hfuel := hrest.fuel_lt
  obtain ⟨hw, -, -, hw', -, -, rfl⟩ := hrest
  have hdot : t.kind.continuation? = some .member :=
    congrArg TokenKind.continuation? (hw.isWord.kind_eq rfl)
  have hname : t.tail.kind = .identifier := hw'.isWord.unique attr.isWord
  have hlength : ws.length < n := by
    simp only [List.length_append, List.length_cons] at hn
    omega
  obtain ⟨e, hshows, hleads⟩ := h.goesOn hws hlength hdot hpower
    (Nat.lt_trans hpower (by decide)) (by decide)
  have hread : continued (exprWithin n) e .member t =
      .ok (.member (e.span.through t.tail.tail.last) e attr.text, t.tail.tail) := by
    rw [continued, advance_bind, expect_bind_eq_ok, ← hw'.text]
    exact ⟨hname, rfl⟩
  exact ⟨_, .member hshows, hleads hread hfuel⟩

/-! ### Parentheses -/

/-- A term of any form is read in parentheses, and then it holds together at every level. -/
theorem readsTerm_grouped (h : ReadsTerm .conditional t ws) :
    ReadsTerm level t ("(" :: ws ++ [")"]) := by
  intro s u n power hs hn hpower hends
  obtain ⟨v, ⟨hw, -, hahead, hws⟩, hw', -, hahead', rfl⟩ := TokenStream.spells_append.1 hs
  have hopen : s.kind = .openParen := hw.isWord.kind_eq rfl
  have hclose : v.kind = .closeParen := hw'.isWord.kind_eq rfl
  have hlength : ws.length < n := by
    simp only [List.length_append, List.length_cons] at hn
    omega
  obtain ⟨e, hshows, hread⟩ := h.exprWithin_default hws hlength (by rw [hclose]; rfl)
  have hinner : s.tail.kind ≠ .closeParen := kind_ne_of_exprWithin hread rfl
  -- neither a comma nor a clause follows, so the expression itself is what the parentheses hold
  refine ⟨e, hshows, leads_of_opened (show s.kind.opening? = some .parens by rw [hopen]; rfl) ?_⟩
  have hclause : atClause v = false := by rw [atClause, hclose]
  rw [opened, advance_bind]
  refine skip?_bind_eq_ok.2 (.inr ⟨hinner, bind_eq_ok.2 ⟨e, v, hread, ?_⟩⟩)
  rw [get_bind, hclause, if_neg Bool.false_ne_true, kind_bind, if_neg (by rw [hclose]; decide)]
  exact expect_bind_eq_ok.2 ⟨hclose, rfl⟩

/-- A reader of items that reads an expression up to a comma or a closing parenthesis. -/
def ReadsItem {β : Type} (n : Nat) (item : Parse β) (f : Expr → β) : Prop :=
  ∀ {ws : List String} {s t : TokenStream} {e : Expr}, s.Spells ws t →
    exprWithin n .default s = .ok (e, t) → (t.kind = .comma ∨ t.kind = .closeParen) →
      item s = .ok (f e, t)

/-- An item that is an expression is read up to the comma. -/
theorem readsItem_expr (n : Nat) : ReadsItem n (exprWithin n .default) id :=
  fun _ hread _ => hread

/-- An argument that is not by name is read by position. -/
theorem readsItem_argument (n : Nat) : ReadsItem n (argument (exprWithin n)) .inl := by
  intro ws s t e hs hread ht
  have hstars : s.kind ≠ .doubleStar := kind_ne_of_exprWithin hread rfl
  have hclause : atClause t = false := by
    rw [atClause]
    obtain ht | ht := ht <;> rw [ht]
  -- after the first word stands another word of the term, or what ends the argument
  have hassign : s.peek 1 ≠ .assign := by
    have hpos := length_pos_of_exprWithin hread hs (by obtain ht | ht := ht <;> rw [ht] <;> rfl)
    match ws with
    | [] => exact absurd hpos (Nat.lt_irrefl 0)
    | [w] =>
      obtain ⟨hw, -, hahead, rfl⟩ := hs
      rw [(TokenStream.fuel_eq_of_spells hw hahead).2]
      obtain ht | ht := ht <;> rw [ht] <;> decide
    | w :: w' :: ws =>
      obtain ⟨hw, -, hahead, -, hassign, -⟩ := hs
      rw [(TokenStream.fuel_eq_of_spells hw hahead).2]
      exact hassign
  refine skip?_bind_eq_ok.2 (.inr ⟨hstars, ?_⟩)
  rw [if_neg Bool.false_ne_true, kind_bind, get_bind, if_neg fun h => hassign h.2, bind_eq_ok]
  refine ⟨e, t, hread, ?_⟩
  rw [get_bind, hclause]
  rfl

/-- Further items of a list, up to the closing parenthesis. -/
def ReadsItems (ts : List Term) (vs : List String) : Prop :=
  ∀ {s u : TokenStream} {n : Nat}, s.Spells vs u → vs.length ≤ n → u.kind = .closeParen →
    (vs ≠ [] → s.kind = .comma) ∧ ∃ es, List.Forall₂ Term.Shows ts es ∧
      ∀ {β : Type} {item : Parse β} {f : Expr → β}, ReadsItem n item f →
        AfterItem item .closeParen s (es.map f) u

/-- Before further items stands a comma, or the parenthesis that closes the list. -/
theorem kind_of_items (hs : s.Spells vs u) (hu : u.kind = .closeParen)
    (hnext : vs ≠ [] → s.kind = .comma) : s.kind = .comma ∨ s.kind = .closeParen := by
  cases vs with
  | nil =>
    obtain rfl : s = u := hs
    exact .inr hu
  | cons => exact .inl (hnext (List.cons_ne_nil _ _))

/-- After the last item there may be nothing. -/
theorem readsItems_nil : ReadsItems [] [] := by
  rintro s u n rfl hn hu
  exact ⟨fun h => absurd rfl h, [], .nil, fun _ => .done hu⟩

/-- After the last item there may be a comma. -/
theorem readsItems_comma : ReadsItems [] [","] := by
  rintro s u n ⟨hw, -, hahead, rfl⟩ hn hu
  have hcomma : s.kind = .comma := hw.isWord.kind_eq rfl
  have hfuel := (TokenStream.fuel_eq_of_spells hw hahead).1
  exact ⟨fun _ => hcomma, [], .nil, fun _ => .comma hcomma (by omega) hu⟩

/-- An item more is read after a comma. -/
theorem readsItems_cons {ts : List Term} (h : ReadsTerm .conditional t ws)
    (hts : ReadsItems ts vs) : ReadsItems (t :: ts) ("," :: ws ++ vs) := by
  intro s u n hs hn hu
  obtain ⟨v, ⟨hw, -, hahead, hws⟩, hvs⟩ := TokenStream.spells_append.1 hs
  have hcomma : s.kind = .comma := hw.isWord.kind_eq rfl
  have hlength : ws.length < n ∧ vs.length < n := by
    simp only [List.length_append, List.length_cons] at hn
    omega
  obtain ⟨hnext, es, hes, hafter⟩ := hts (n := n) hvs (Nat.le_of_lt hlength.2) hu
  have hv := kind_of_items hvs hu hnext
  obtain ⟨e, he, hread⟩ := h.exprWithin_default hws hlength.1
    (by obtain hv | hv := hv <;> rw [hv] <;> rfl)
  have hpos := length_pos_of_exprWithin hread hws (by obtain hv | hv := hv <;> rw [hv] <;> rfl)
  have hfuel := (TokenStream.fuel_eq_of_spells hw hahead).1
  have hrest := hws.fuel_eq
  refine ⟨fun _ => hcomma, e :: es, .cons he hes, fun hitem => ?_⟩
  exact .next hcomma (by omega) (kind_ne_of_exprWithin hread rfl) (hitem hws hread hv)
    (by omega) (hafter hitem)

/-- A tuple is read when its elements are. Without a comma it would be its one element in
parentheses. -/
theorem readsTerm_tuple {first : Term} {others : List Term}
    (hfirst : ReadsTerm .conditional first ws) (hothers : ReadsItems others vs) (hne : vs ≠ []) :
    ReadsTerm .primary (.tuple (first :: others)) ("(" :: ws ++ vs ++ [")"]) := by
  intro s u n power hs hn hpower hends
  obtain ⟨r, hinner, hw', -, hahead', rfl⟩ := TokenStream.spells_append.1 hs
  obtain ⟨v, ⟨hw, -, hahead, hws⟩, hvs⟩ := TokenStream.spells_append.1 hinner
  have hopen : s.kind = .openParen := hw.isWord.kind_eq rfl
  have hclose : r.kind = .closeParen := hw'.isWord.kind_eq rfl
  have hlength : ws.length < n ∧ vs.length < n := by
    simp only [List.length_append, List.length_cons] at hn
    omega
  obtain ⟨hnext, es, hes, hafter⟩ := hothers (n := n) hvs (Nat.le_of_lt hlength.2) hclose
  -- a comma after the first element, so this is not a term in parentheses
  have hcomma := hnext hne
  obtain ⟨e, he, hread⟩ := hfirst.exprWithin_default hws hlength.1 (by rw [hcomma]; rfl)
  have hclause : atClause v = false := by rw [atClause, hcomma]
  have hrest := (hafter (readsItem_expr n)).afterCommas_eq_ok (by decide)
  rw [List.map_id] at hrest
  refine ⟨.tuple (s.current.span.through r.tail.last) (e :: es), .tuple (.cons he hes),
    leads_of_opened (show s.kind.opening? = some .parens by rw [hopen]; rfl) ?_⟩
  rw [opened, advance_bind]
  refine skip?_bind_eq_ok.2 (.inr ⟨kind_ne_of_exprWithin hread rfl, ?_⟩)
  refine bind_eq_ok.2 ⟨e, v, hread, ?_⟩
  rw [get_bind, hclause, if_neg Bool.false_ne_true, kind_bind, if_pos hcomma, bind_eq_ok]
  refine ⟨e :: es, r.tail, ?_, rfl⟩
  exact bind_eq_ok.2 ⟨es, r, hrest, expect_bind_eq_ok.2 ⟨hclose, rfl⟩⟩

/-- The empty tuple is read. -/
theorem readsTerm_emptyTuple : ReadsTerm .primary (.tuple []) ["(", ")"] := by
  rintro s u n power ⟨hw, -, -, hw', -, -, rfl⟩ hn hpower hends
  have hopen : s.kind = .openParen := hw.isWord.kind_eq rfl
  have hclose : s.tail.kind = .closeParen := hw'.isWord.kind_eq rfl
  refine ⟨.tuple (s.current.span.through s.tail.tail.last) [], .tuple .nil,
    leads_of_opened (show s.kind.opening? = some .parens by rw [hopen]; rfl) ?_⟩
  rw [opened, advance_bind]
  exact skip?_bind_eq_ok.2 (.inl ⟨hclose, rfl⟩)

/-! ### Calls and subscripts -/

/-- A call goes on with its arguments up to the closing parenthesis. -/
theorem continued_call {expr : BindingPower → Parse Expr} {callee : Expr} {es : List Expr}
    (h : untilClosed .closeParen (argument expr) s.tail = .ok (es.map .inl, u))
    (hu : u.kind = .closeParen) : continued expr callee .call s =
      .ok (.call (callee.span.through u.tail.last) callee es [], u.tail) := by
  rw [continued, advance_bind, bind_eq_ok]
  refine ⟨_, u, h, expect_bind_eq_ok.2 ⟨hu, ?_⟩⟩
  rw [spanFrom_bind, List.filterMap_map, List.filterMap_map]
  simp [Function.comp_def]

/-- A call is read when its callee and its arguments are. -/
theorem readsTerm_call {callee first : Term} {others : List Term}
    (hcallee : ReadsTerm .primary callee us) (hfirst : ReadsTerm .conditional first ws)
    (hothers : ReadsItems others vs) :
    ReadsTerm .primary (.call callee (first :: others)) (us ++ "(" :: ws ++ vs ++ [")"]) := by
  intro s u n power hs hn hpower hends
  rw [List.append_assoc, List.append_assoc, List.cons_append] at hs
  obtain ⟨t, hus, hrest⟩ := TokenStream.spells_append.1 hs
  have hfuel := hrest.fuel_lt
  obtain ⟨hw, -, -, hrest⟩ := hrest
  obtain ⟨v, hws, hrest⟩ := TokenStream.spells_append.1 hrest
  obtain ⟨r, hvs, hw', -, -, rfl⟩ := TokenStream.spells_append.1 hrest
  have hopen : t.kind.continuation? = some .call :=
    congrArg TokenKind.continuation? (hw.isWord.kind_eq rfl)
  have hclose : r.kind = .closeParen := hw'.isWord.kind_eq rfl
  have hlength : us.length < n ∧ ws.length < n ∧ vs.length < n := by
    simp only [List.length_append, List.length_cons] at hn
    omega
  obtain ⟨c, hc, hleads⟩ := hcallee.goesOn hus hlength.1 hopen hpower hpower (by decide)
  obtain ⟨hnext, es, hes, hafter⟩ := hothers (n := n) hvs (Nat.le_of_lt hlength.2.2) hclose
  have hv := kind_of_items hvs hclose hnext
  obtain ⟨e, he, hread⟩ := hfirst.exprWithin_default hws hlength.2.1
    (by obtain hv | hv := hv <;> rw [hv] <;> rfl)
  have hpos := length_pos_of_exprWithin hread hws (by obtain hv | hv := hv <;> rw [hv] <;> rfl)
  have hrest := hws.fuel_eq
  have harguments : untilClosed .closeParen (argument (exprWithin n)) t.tail =
      .ok ((e :: es).map .inl, r) :=
    (hafter (readsItem_argument n)).untilClosed_eq_ok (by decide)
      (kind_ne_of_exprWithin hread rfl) (readsItem_argument n hws hread hv) (by omega)
  exact ⟨_, .call hc (.cons he hes), hleads (continued_call harguments hclose) hfuel⟩

/-- A call without arguments is read when its callee is. -/
theorem readsTerm_emptyCall {callee : Term} (h : ReadsTerm .primary callee ws) :
    ReadsTerm .primary (.call callee []) (ws ++ ["(", ")"]) := by
  intro s u n power hs hn hpower hends
  obtain ⟨t, hws, hrest⟩ := TokenStream.spells_append.1 hs
  have hfuel := hrest.fuel_lt
  obtain ⟨hw, -, -, hw', -, -, rfl⟩ := hrest
  have hopen : t.kind.continuation? = some .call :=
    congrArg TokenKind.continuation? (hw.isWord.kind_eq rfl)
  have hclose : t.tail.kind = .closeParen := hw'.isWord.kind_eq rfl
  have hlength : ws.length < n := by
    simp only [List.length_append, List.length_cons] at hn
    omega
  obtain ⟨c, hc, hleads⟩ := h.goesOn hws hlength hopen hpower hpower (by decide)
  have harguments : untilClosed .closeParen (argument (exprWithin n)) t.tail =
      .ok (([] : List Expr).map .inl, t.tail) :=
    untilClosed_of_closing hclose
  exact ⟨_, .call hc .nil, hleads (continued_call harguments hclose) hfuel⟩

/-- A subscript goes on with its index up to the closing bracket. -/
theorem continued_subscript {value e : Expr} (hread : exprWithin n .default s.tail = .ok (e, u))
    (hu : u.kind = .closeBracket) : continued (exprWithin n) value .subscript s =
      .ok (.subscript (value.span.through u.tail.last) value e, u.tail) := by
  have hcolon : s.tail.kind ≠ .colon := kind_ne_of_exprWithin hread rfl
  have hitem : subscriptItem (exprWithin n) s.tail = .ok (e, u) := by
    rw [subscriptItem, kind_bind, if_neg hcolon, bind_eq_ok]
    refine ⟨e, u, hread, ?_⟩
    rw [kind_bind, if_neg (by rw [hu]; decide)]
    rfl
  have hothers : afterCommas (· = .closeBracket) (subscriptItem (exprWithin n)) u = .ok ([], u) :=
    (AfterItem.done hu).afterCommas_eq_ok (by decide)
  rw [continued, advance_bind, bind_eq_ok]
  refine ⟨e, u.tail, ?_, rfl⟩
  rw [subscriptIndex, bind_eq_ok]
  refine ⟨e, u, hitem, ?_⟩
  rw [kind_bind, bind_eq_ok]
  refine ⟨[], u, hothers, expect_bind_eq_ok.2 ⟨hu, ?_⟩⟩
  rw [hu]
  rfl

/-- A subscript is read when its value and its index are. -/
theorem readsTerm_subscript {value index : Term} (hvalue : ReadsTerm .primary value us)
    (hindex : ReadsTerm .conditional index ws) :
    ReadsTerm .primary (.subscript value index) (us ++ "[" :: ws ++ ["]"]) := by
  intro s u n power hs hn hpower hends
  rw [List.append_assoc, List.cons_append] at hs
  obtain ⟨t, hus, hrest⟩ := TokenStream.spells_append.1 hs
  have hfuel := hrest.fuel_lt
  obtain ⟨hw, -, -, hrest⟩ := hrest
  obtain ⟨v, hws, hw', -, -, rfl⟩ := TokenStream.spells_append.1 hrest
  have hopen : t.kind.continuation? = some .subscript :=
    congrArg TokenKind.continuation? (hw.isWord.kind_eq rfl)
  have hclose : v.kind = .closeBracket := hw'.isWord.kind_eq rfl
  have hlength : us.length < n ∧ ws.length < n := by
    simp only [List.length_append, List.length_cons] at hn
    omega
  obtain ⟨e, he, hleads⟩ := hvalue.goesOn hus hlength.1 hopen hpower hpower (by decide)
  obtain ⟨i, hi, hread⟩ := hindex.exprWithin_default hws hlength.2 (by rw [hclose]; rfl)
  exact ⟨_, .subscript he hi, hleads (continued_subscript hread hclose) hfuel⟩

/-! ### Conditions -/

/-- Further values of a boolean operator: they join the values before them. -/
def ReadsValues (operator : BoolOp) (ts : List Term) (ws : List String) : Prop :=
  ∀ {s u : TokenStream} {n : Nat}, s.Spells ws u → ws.length ≤ n →
    u.kind.bindingPower.rank ≤ operator.power.rank →
      s.kind.bindingPower.rank ≤ operator.power.rank ∧ ∃ es, List.Forall₂ Term.Shows ts es ∧
        ∀ {start : TokenStream} {power : BindingPower} {span : Span} {found : List Expr},
          power.rank < operator.power.rank →
          Leads (exprWithin n) power start (.boolean span operator found) s →
            ∃ span, Leads (exprWithin n) power start (.boolean span operator (found ++ es)) u

/-- The word of a boolean operator continues an expression. -/
theorem continuation?_of_boolWord {operator : BoolOp} (hw : s.current.Spells operator.word) :
    s.kind.continuation? = some (.boolean operator) := by
  cases operator <;> exact congrArg TokenKind.continuation? (hw.isWord.kind_eq rfl)

/-- A boolean operator goes on with the value after it, which is joined with what stands before it.
-/
theorem continued_boolean {expr : BindingPower → Parse Expr} {operator : BoolOp}
    {left right : Expr} (h : expr operator.power s.tail = .ok (right, u)) :
    continued expr left (.boolean operator) s =
      .ok (.boolean (left.span.through u.last) operator (joined operator left right), u) := by
  rw [continued, advance_bind, bind_eq_ok]
  exact ⟨right, u, h, rfl⟩

/-- After the second value there need not be another. -/
theorem readsValues_nil {operator : BoolOp} : ReadsValues operator [] [] := by
  rintro s u n rfl hn hu
  refine ⟨hu, [], .nil, fun {start power span found} hpower hleads => ⟨span, ?_⟩⟩
  rwa [List.append_nil]

/-- A value more is read after the word of the operator. -/
theorem readsValues_cons {operator : BoolOp} {ts : List Term}
    (h : ReadsTerm operator.level.next t ws) (hts : ReadsValues operator ts vs) :
    ReadsValues operator (t :: ts) (operator.word :: ws ++ vs) := by
  intro s u n hs hn hu
  obtain ⟨v, hinner, hvs⟩ := TokenStream.spells_append.1 hs
  have hfuel := hinner.fuel_lt
  obtain ⟨hw, -, -, hws⟩ := hinner
  have hlength : ws.length < n ∧ vs.length < n := by
    simp only [List.length_append, List.length_cons] at hn
    omega
  have hkind := continuation?_of_boolWord hw
  have hheld : s.kind.bindingPower = operator.power :=
    TokenKind.bindingPower_of_continuation? hkind
  obtain ⟨hv, es, hes, hjoin⟩ := hts (n := n) hvs (Nat.le_of_lt hlength.2) hu
  obtain ⟨e, he, hread⟩ := h.exprWithin_eq_ok hws hlength.1 operator.power_lt_opens
    (Nat.le_trans hv operator.power_le_ends) hv
  refine ⟨Nat.le_of_eq (congrArg _ hheld), e :: es, .cons he hes, ?_⟩
  intro start power span found hpower hleads
  have hnext := hleads.continued hkind hpower (continued_boolean hread) hfuel
  rw [joined, if_pos rfl] at hnext
  obtain ⟨span', hall⟩ := hjoin hpower hnext
  rw [List.append_assoc] at hall
  exact ⟨span', hall⟩

/-- A first value that the operator does not join begins a chain of its own. -/
theorem joined_eq_of_isJoined {operator : BoolOp} {first : Term} {e right : Expr}
    (h : first.isJoined operator = false) (hshows : first.Shows e) :
    joined operator e right = [e, right] := by
  cases hshows with
  | boolean =>
    have hne := of_decide_eq_false h
    rw [joined, if_neg hne]
  | _ => rfl

/-- A boolean operation is read as one chain of values, unless its first value is a chain of the
same operator in parentheses. -/
theorem readsTerm_boolean {operator : BoolOp} {first second : Term} {others : List Term}
    (hjoined : first.isJoined operator = false) (hfirst : ReadsTerm operator.level.next first us)
    (hsecond : ReadsTerm operator.level.next second vs)
    (hothers : ReadsValues operator others ws) :
    ReadsTerm operator.level (.boolean operator first second others)
      (us ++ operator.word :: vs ++ ws) := by
  intro s u n power hs hn hpower hends
  obtain ⟨v, hinner, hws⟩ := TokenStream.spells_append.1 hs
  obtain ⟨t, hus, hrest⟩ := TokenStream.spells_append.1 hinner
  have hfuel := hrest.fuel_lt
  obtain ⟨hw, -, -, hvs⟩ := hrest
  have hlength : us.length < n ∧ vs.length < n ∧ ws.length < n := by
    simp only [List.length_append, List.length_cons] at hn
    omega
  have hlevel : operator.level.opens = operator.power ∧ operator.level.ends = operator.power := by
    cases operator <;> decide
  rw [hlevel.1] at hpower
  rw [hlevel.2] at hends
  obtain ⟨a, ha, hleads⟩ := hfirst.goesOn hus hlength.1 (continuation?_of_boolWord hw)
    (Nat.lt_trans hpower operator.power_lt_opens) hpower operator.power_le_ends
  -- each value is read up to the next operator of the chain, which holds it no more strongly
  obtain ⟨hv, es, hes, hjoin⟩ := hothers (n := n) hws (Nat.le_of_lt hlength.2.2) hends
  obtain ⟨b, hb, hread⟩ := hsecond.exprWithin_eq_ok hvs hlength.2.1 operator.power_lt_opens
    (Nat.le_trans hv operator.power_le_ends) hv
  have hpair := hleads (continued_boolean hread) hfuel
  rw [joined_eq_of_isJoined hjoined ha] at hpair
  obtain ⟨span, hall⟩ := hjoin hpower hpair
  exact ⟨_, .boolean ha hb hes, hall⟩

/-! ### Comparisons -/

/-- Further comparisons of a chain. -/
def ReadsLinks (ls : List (CompareOp × Term)) (ws : List String) : Prop :=
  ∀ {s u : TokenStream} {n : Nat}, s.Spells ws u → ws.length ≤ n →
    u.kind.bindingPower.rank ≤ Level.comparison.ends.rank →
      s.kind.bindingPower.rank ≤ BindingPower.relational.rank ∧ ∃ shown : List (CompareOp × Expr),
        ls.map (·.1) = shown.map (·.1) ∧
        List.Forall₂ Term.Shows (ls.map (·.2)) (shown.map (·.2)) ∧
        Many (·.kind.bindingPower = .relational) (link (exprWithin n)) s shown u

/-- An operator that compares, where the operand after it does not begin with `not`. -/
theorem compareOp_eq_ok {operator : CompareOp} (hs : s.Spells operator.words u)
    (hu : u.kind ≠ .kwNot) : compareOp s = .ok (operator, u) := by
  cases operator with
  | is =>
    obtain ⟨hw, -, hahead, rfl⟩ := hs
    have hkind : s.kind = .kwIs := hw.isWord.kind_eq rfl
    have hpeek := (TokenStream.fuel_eq_of_spells hw hahead).2
    simp [compareOp, hkind, hpeek, hu]
  | isNot =>
    obtain ⟨hw, -, hahead, hw', -, -, rfl⟩ := hs
    have hkind : s.kind = .kwIs := hw.isWord.kind_eq rfl
    have hkind' : s.tail.kind = .kwNot := hw'.isWord.kind_eq rfl
    have hpeek := (TokenStream.fuel_eq_of_spells hw hahead).2
    simp [compareOp, hkind, hpeek, hkind']
  | notIn =>
    obtain ⟨hw, -, -, hw', -, -, rfl⟩ := hs
    have hkind : s.kind = .kwNot := hw.isWord.kind_eq rfl
    have hkind' : s.tail.kind = .kwIn := hw'.isWord.kind_eq rfl
    simp [compareOp, hkind, hkind']
  | equal | notEqual | less | lessEqual | greater | greaterEqual | isIn =>
    obtain ⟨hw, -, -, rfl⟩ := hs
    have hkind : s.kind = _ := hw.isWord.kind_eq rfl
    simp [compareOp, hkind]

/-- A comparison begins with a token that continues an expression. -/
theorem continuation?_of_compareWords {operator : CompareOp} (hs : s.Spells operator.words u) :
    s.kind.continuation? = some .comparison ∧ u.fuel < s.fuel := by
  have hfuel := hs.fuel_eq
  have hpos := operator.length_words_pos
  refine ⟨?_, by omega⟩
  cases operator
  all_goals
    obtain ⟨hw, -⟩ := hs
    exact congrArg TokenKind.continuation? (hw.isWord.kind_eq rfl)

/-- Words of which the first is not `not` are not gone through from there on. -/
theorem kind_ne_of_beginsFree (h : BeginsFree ws) (hs : s.Spells ws u) : s.kind ≠ .kwNot := by
  obtain ⟨w, rest, rfl, hnot⟩ := h
  obtain ⟨hw, -⟩ := hs
  intro hkind
  have hword : IsWord w s.kind := hw.isWord
  rw [hkind] at hword
  exact hnot hword

/-- One comparison, with what stands after the operator. -/
theorem link_of_words {operator : CompareOp} {r v : TokenStream}
    (h : ReadsTerm Level.comparison.next t ws) (hfree : BeginsFree ws) (hn : ws.length < n)
    (hoperator : s.Spells operator.words r) (hws : r.Spells ws v)
    (hv : v.kind.bindingPower.rank ≤ BindingPower.relational.rank) :
    ∃ e, t.Shows e ∧ link (exprWithin n) s = .ok ((operator, e), v) := by
  obtain ⟨e, he, hread⟩ := h.exprWithin_eq_ok hws hn
    (show BindingPower.relational.rank < Level.comparison.next.opens.rank by decide)
    (Nat.le_succ_of_le hv) hv
  have hfound := compareOp_eq_ok hoperator (kind_ne_of_beginsFree hfree hws)
  exact ⟨e, he, bind_eq_ok.2 ⟨operator, r, hfound, bind_eq_ok.2 ⟨e, v, hread, rfl⟩⟩⟩

/-- After the second operand there need not be another comparison. -/
theorem readsLinks_nil : ReadsLinks [] [] := by
  rintro s u n rfl hn hu
  have hweak : s.kind.bindingPower.rank < BindingPower.relational.rank :=
    Nat.lt_of_le_of_lt hu (by decide)
  refine ⟨Nat.le_of_lt hweak, [], rfl, .nil, .done (decide_eq_false fun heq => ?_)⟩
  exact Nat.ne_of_lt hweak (congrArg _ heq)

/-- A comparison more is read when the operand after its operator is. -/
theorem readsLinks_cons {operator : CompareOp} {ls : List (CompareOp × Term)}
    (h : ReadsTerm Level.comparison.next t ws) (hfree : BeginsFree ws)
    (hls : ReadsLinks ls vs) : ReadsLinks ((operator, t) :: ls) (operator.words ++ ws ++ vs) := by
  intro s u n hs hn hu
  obtain ⟨v, hinner, hvs⟩ := TokenStream.spells_append.1 hs
  obtain ⟨r, hoperator, hws⟩ := TokenStream.spells_append.1 hinner
  have hpos := operator.length_words_pos
  have hlength : ws.length < n ∧ vs.length ≤ n := by
    simp only [List.length_append] at hn
    omega
  obtain ⟨hkind, hfuel⟩ := continuation?_of_compareWords hoperator
  have hheld : s.kind.bindingPower = .relational := TokenKind.bindingPower_of_continuation? hkind
  obtain ⟨hv, shown, hoperators, hterms, hmany⟩ := hls (n := n) hvs hlength.2 hu
  obtain ⟨e, he, hlink⟩ := link_of_words h hfree hlength.1 hoperator hws hv
  have hrest := hws.fuel_eq
  refine ⟨Nat.le_of_eq (congrArg _ hheld), (operator, e) :: shown, ?_, .cons he hterms, ?_⟩
  · rw [List.map_cons, List.map_cons, hoperators]
  · exact .next (decide_eq_true hheld) hlink (by omega) hmany

/-- A chain of comparisons is read when its operands are. -/
theorem readsTerm_comparison {operator : CompareOp} {left right : Term}
    {others : List (CompareOp × Term)} (hleft : ReadsTerm Level.comparison.next left us)
    (hright : ReadsTerm Level.comparison.next right vs)
    (hfree : BeginsFree vs) (hothers : ReadsLinks others ws) :
    ReadsTerm .comparison (.comparison left operator right others)
      (us ++ operator.words ++ vs ++ ws) := by
  intro s u n power hs hn hpower hends
  obtain ⟨v, hinner, hws⟩ := TokenStream.spells_append.1 hs
  obtain ⟨r, hinner, hvs⟩ := TokenStream.spells_append.1 hinner
  obtain ⟨t, hus, hoperator⟩ := TokenStream.spells_append.1 hinner
  have hpos := operator.length_words_pos
  have hlength : us.length < n ∧ vs.length < n ∧ ws.length ≤ n := by
    simp only [List.length_append] at hn
    omega
  obtain ⟨hkind, hfuel⟩ := continuation?_of_compareWords hoperator
  obtain ⟨l, hl, hleads⟩ := hleft.goesOn hus hlength.1 hkind (Nat.lt_trans hpower (by decide))
    hpower (by decide)
  -- the operators after the first one are read in one loop, so the chain is flat
  obtain ⟨hv, shown, hoperators, hterms, hmany⟩ := hothers (n := n) hws hlength.2.2 hends
  obtain ⟨e, he, hlink⟩ := link_of_words hright hfree hlength.2.1 hoperator hvs hv
  have hrest := hvs.fuel_eq
  have hrest' := hws.fuel_eq
  have hread : continued (exprWithin n) l .comparison t =
      .ok (.comparison (l.span.through u.last) l ((operator, e) :: shown), u) := by
    refine bind_eq_ok.2 ⟨(operator, e), v, hlink, ?_⟩
    exact bind_eq_ok.2 ⟨shown, u, hmany.manyWhile_eq_ok, rfl⟩
  exact ⟨_, .comparison hl he hoperators hterms, hleads hread (by omega)⟩

end Terms

end Parse

end NoteCheck.Code
