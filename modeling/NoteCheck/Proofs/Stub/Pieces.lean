/-
# Types as expressions

What is read of the canonical text of a type where it stands on one line: a name, or a name with
the types in its brackets. The main statement, `TypeExpr.exists_piece`: every type whose names are
identifiers is read as the expression that shows it.
-/
import NoteCheck.Proofs.Layout.Indented
import NoteCheck.Proofs.Signature.RoundTrip

namespace NoteCheck

namespace Code

open Parse

/-! ## Pieces of a line -/

/-- A text on one line, its marks, and the expression that is read of them, without columns. -/
structure Piece where
  text : List Char
  marks : List Mark
  value : Expr

namespace Piece

/-- The text of a piece has its marks, and wherever a token follows that holds nothing they are read
as its value. -/
structure Reads (line : Nat) (p : Piece) : Prop where
  begins : BeginsWithWord p.text
  spells : Spells line p.text p.marks
  closed : ∀ depth, depthAfter p.marks depth = depth
  opens : ∃ m rest, p.marks = m :: rest ∧ m.kind.opensExpr = true
  reads : ∀ {s t n}, s.Goes p.marks t → p.marks.length ≤ n → t.kind.bindingPower = .default →
    Yields (exprWithin n .default) (Expr.mapSpan Span.onLine) s p.value t

variable {line n : Nat} {p : Piece} {items : List Piece} {word : String} {s t u v : TokenStream}

theorem Reads.expr (h : p.Reads line) (hs : s.Goes p.marks t)
    (ht : t.kind.bindingPower = .default) :
    Yields (expr .default) (Expr.mapSpan Span.onLine) s p.value t := by
  have hfuel := hs.fuel_eq
  exact Yields.expr (h.reads hs (by omega) ht)

/-- The mark with which a piece begins is not one that opens no expression. -/
theorem Reads.begins_ne (h : p.Reads line) {kind : TokenKind} (hkind : kind.opensExpr = false) :
    ∃ m rest, p.marks = m :: rest ∧ m.kind ≠ kind := by
  obtain ⟨m, rest, hmarks, hopens⟩ := h.opens
  refine ⟨m, rest, hmarks, ?_⟩
  rintro rfl
  rw [hkind] at hopens
  cases hopens

/-! ## Names and ellipses -/

/-- A name. -/
def name (line : Nat) (word : String) : Piece :=
  ⟨word.toList, [Mark.name line word], .name (.ofLine line) word⟩

theorem reads_name (hword : IsWord word .identifier) : (name line word).Reads line where
  begins := ⟨word, _, [], hword, (List.append_nil _).symm⟩
  spells := spells_name ⟨word, hword⟩
  closed := fun _ => rfl
  opens := ⟨_, [], rfl, rfl⟩
  reads := by
    intro s t n hs hn ht
    obtain ⟨n, rfl⟩ : ∃ m, n = m + 1 := ⟨n - 1, (Nat.sub_add_cancel hn).symm⟩
    refine exprWithin_name hs ?_
    rw [ht]
    decide

/-- An ellipsis. -/
def ellipsis (line : Nat) : Piece :=
  ⟨"...".toList, [⟨.ellipsis, "...", line⟩], .constant (.ofLine line) .ellipsis⟩

theorem reads_ellipsis : (ellipsis line).Reads line where
  begins := ⟨"...", .ellipsis, [], isWord_of_lookup rfl, rfl⟩
  spells := .word (isWord_of_lookup rfl) (by decide)
  closed := fun _ => rfl
  opens := ⟨_, [], rfl, rfl⟩
  reads := by
    intro s t n hs hn ht
    obtain ⟨n, rfl⟩ : ∃ m, n = m + 1 := ⟨n - 1, (Nat.sub_add_cancel hn).symm⟩
    obtain ⟨hkind, -, hline⟩ := Token.of_mark_eq hs.1 rfl (by decide)
    obtain ⟨-, -, -, rfl⟩ := hs
    have hopening : s.kind.opening? = some (.constant .ellipsis) :=
      congrArg TokenKind.opening? hkind
    have hleads : Leads (exprWithin n) .default s
        (.constant (s.current.span.through s.tail.last) .ellipsis) s.tail :=
      leads_of_opened hopening rfl
    refine ⟨_, hleads.exprOf_eq_ok (by rw [ht]; decide), ?_⟩
    rw [Expr.mapSpan, Span.onLine_through, Span.onLine, hline]
    rfl

/-! ## Items with commas -/

/-- The text of pieces with commas between them. -/
def textOf (items : List Piece) : List Char := [',', ' '].intercalate (items.map text)

/-- The marks of pieces with commas between them. -/
def marksOf (line : Nat) (items : List Piece) : List Mark :=
  Mark.separated line (items.map marks)

theorem spells_textOf (h : ∀ p ∈ items, p.Reads line) :
    Spells line (textOf items) (marksOf line items) :=
  spells_intercalate (List.forall₂_map_left_iff.2 (List.forall₂_map_right_iff.2
    (List.forall₂_same.2 fun p hp => ⟨(h p hp).spells, (h p hp).begins⟩)))

theorem depthAfter_marksOf (h : ∀ p ∈ items, p.Reads line) (depth : Nat) :
    depthAfter (marksOf line items) depth = depth := by
  refine depthAfter_separated ?_ depth
  rw [List.forall_mem_map]
  exact fun p hp => (h p hp).closed

/-- The marks of each item are among those of all items. -/
theorem length_le_of_mem (line : Nat) (hp : p ∈ items) :
    p.marks.length ≤ (marksOf line items).length := by
  have hothers : ∀ items : List Piece, p ∈ items →
      p.marks.length ≤ (Mark.afterFirst line (items.map marks)).length := by
    intro items hp
    obtain ⟨before, after, rfl⟩ := List.append_of_mem hp
    simp only [Mark.afterFirst, List.map_append, List.map_cons, List.flatMap_append,
      List.flatMap_cons, List.length_append, List.length_cons]
    omega
  cases items with
  | nil => cases hp
  | cons first others =>
    rw [marksOf, List.map_cons, Mark.separated, List.length_append]
    obtain rfl | hp := List.mem_cons.1 hp
    · exact Nat.le_add_right _ _
    · exact Nat.le_trans (hothers others hp) (Nat.le_add_left _ _)

variable {item : Parse Expr} {closing : TokenKind}

/-- A first item, and the items after it. -/
theorem exists_items (hclosing : closing ≠ .comma)
    (h : ∀ p ∈ items, ReadsItemAs item (Expr.mapSpan Span.onLine) closing p.marks p.value)
    (hne : items ≠ []) (hs : s.Goes (marksOf line items) t) (ht : t.kind = closing) :
    ∃ first others u, item s = .ok (first, u) ∧ u.fuel ≤ s.fuel ∧
      AfterItem item closing u others t ∧ (u.kind = .comma ∨ u.kind = closing) ∧
      (u.kind = .comma ↔ others ≠ []) ∧
      (first :: others).map (Expr.mapSpan Span.onLine) = items.map value := by
  obtain ⟨p, items, rfl⟩ := List.exists_cons_of_ne_nil hne
  obtain ⟨hp, hitems⟩ := List.forall_mem_cons.1 h
  have hforall : List.Forall₂ (ReadsItemAs item (Expr.mapSpan Span.onLine) closing)
      (items.map marks) (items.map value) :=
    List.forall₂_map_left_iff.2 (List.forall₂_map_right_iff.2 (List.forall₂_same.2 hitems))
  obtain ⟨u, hu, hmore⟩ := TokenStream.goes_append.1 hs
  have hkind := kind_of_afterFirst hmore ht
  obtain ⟨-, hfuel, first, hfirst, hvalue⟩ := hp.exists_eq_ok hu hkind
  obtain ⟨others, hothers, hvalues⟩ := exists_afterItem hforall hmore ht
  refine ⟨first, others, u, hfirst, Nat.le_of_lt hfuel, hothers, hkind, ?_, ?_⟩
  · have hlength : others.length = items.length := by
      have hlengths := congrArg List.length hvalues
      rwa [List.length_map, List.length_map] at hlengths
    rw [ne_eq, ← List.length_eq_zero_iff, hlength, List.length_eq_zero_iff]
    cases items with
    | nil =>
      obtain rfl : u = t := hmore
      simp [ht, hclosing]
    | cons => simp [show u.kind = .comma from hmore.kind_eq]
  · rw [List.map_cons, hvalue, hvalues, List.map_cons]

/-! ## Brackets -/

/-- A piece is read between commas and brackets. -/
theorem Reads.readsItemAs (h : p.Reads line) (hn : p.marks.length ≤ n) :
    ReadsItemAs (exprWithin n .default)
      (Expr.mapSpan Span.onLine) .closeBracket p.marks p.value where
  begins := h.begins_ne rfl
  reads := fun hs ht => h.reads hs hn (by obtain ht | ht := ht <;> rw [ht] <;> rfl)

/-- A piece is read as an item of a subscript. -/
theorem Reads.readsSubscriptItem (h : p.Reads line) (hn : p.marks.length ≤ n) :
    ReadsItemAs (subscriptItem (exprWithin n)) (Expr.mapSpan Span.onLine) .closeBracket p.marks
      p.value where
  begins := h.begins_ne rfl
  reads := by
    intro s t hs ht
    obtain ⟨e, hread, he⟩ := (h.readsItemAs hn).reads hs ht
    have hcolon : t.kind ≠ .colon := by obtain ht | ht := ht <;> rw [ht] <;> decide
    refine ⟨e, ?_, he⟩
    rw [subscriptItem, kind_bind, if_neg (kind_ne_of_exprWithin hread rfl)]
    refine bind_eq_ok.2 ⟨e, t, hread, ?_⟩
    rw [kind_bind, if_neg hcolon]
    rfl

/-- A list. -/
def listDisplay (line : Nat) (items : List Piece) : Piece where
  text := '[' :: (textOf items ++ "]".toList)
  marks := ⟨.openBracket, "[", line⟩ :: (marksOf line items ++ [⟨.closeBracket, "]", line⟩])
  value := .listDisplay (.ofLine line) (items.map value)

theorem spells_bracketed (h : ∀ p ∈ items, p.Reads line) :
    Spells line ('[' :: (textOf items ++ "]".toList))
      (⟨.openBracket, "[", line⟩ :: (marksOf line items ++ [⟨.closeBracket, "]", line⟩])) :=
  .openBracket ((spells_textOf h).append (.word (isWord_of_lookup rfl) (by decide)) .closeBracket)

theorem depthAfter_bracketed (h : ∀ p ∈ items, p.Reads line) (depth : Nat) :
    depthAfter (⟨.openBracket, "[", line⟩ :: (marksOf line items ++ [⟨.closeBracket, "]", line⟩]))
      depth = depth := by
  rw [depthAfter_cons, depthAfter_append, depthAfter_marksOf h]
  rfl

theorem reads_listDisplay (h : ∀ p ∈ items, p.Reads line) (hne : items ≠ []) :
    (listDisplay line items).Reads line where
  begins := ⟨"[", _, _, isWord_of_lookup rfl, rfl⟩
  spells := spells_bracketed h
  closed := depthAfter_bracketed h
  opens := ⟨_, _, rfl, rfl⟩
  reads := by
    intro s t n hs hn ht
    obtain ⟨n, rfl⟩ : ∃ m, n = m + 1 :=
      ⟨n - 1, (Nat.sub_add_cancel (Nat.le_trans (Nat.succ_pos _) hn)).symm⟩
    have hlength : ∀ p ∈ items, p.marks.length ≤ n := fun p hp => by
      have hle := length_le_of_mem line hp
      simp only [listDisplay, List.length_cons, List.length_append] at hn
      omega
    obtain ⟨hkind, -, hline⟩ := Token.of_mark_eq hs.1 rfl (by decide)
    obtain ⟨v, hitems, hclose⟩ := TokenStream.goes_append.1 hs.tail
    have hv : v.kind = .closeBracket := hclose.kind_eq
    obtain ⟨-, -, -, rfl⟩ := hclose
    obtain ⟨first, others, u, hfirst, -, hothers, hu, -, hvalues⟩ := exists_items (by decide)
      (fun p hp => (h p hp).readsItemAs (hlength p hp)) hne hitems hv
    have hopen : s.tail.kind ≠ .closeBracket := kind_ne_of_exprWithin hfirst rfl
    -- behind the first item stands a comma or the bracket, and no clause
    have hclause : atClause u = false := by
      rw [atClause]
      obtain hu | hu := hu <;> rw [hu]
    have helements : elementsAfter (exprWithin n) first .closeBracket u =
        .ok (first :: others, v.tail) :=
      bind_eq_ok.2 ⟨others, v, hothers.afterCommas_eq_ok (by decide),
        expect_bind_eq_ok.2 ⟨hv, rfl⟩⟩
    have hopened : opened (exprWithin n) .brackets s = .ok
        (.listDisplay (s.current.span.through v.tail.last) (first :: others), v.tail) := by
      rw [opened, advance_bind]
      refine skip?_bind_eq_ok.2 (.inr ⟨hopen, ?_⟩)
      refine bind_eq_ok.2 ⟨first, u, hfirst, ?_⟩
      rw [get_bind, hclause]
      exact bind_eq_ok.2 ⟨_, _, helements, rfl⟩
    have hopening : s.kind.opening? = some .brackets := congrArg TokenKind.opening? hkind
    have hleads : Leads (exprWithin n) .default s _ v.tail := leads_of_opened hopening hopened
    refine ⟨_, hleads.exprOf_eq_ok (by rw [ht]; decide), ?_⟩
    rw [Expr.mapSpan, Expr.mapSpanIn_eq_map, hvalues, Span.onLine_through, Span.onLine, hline]
    rfl

/-! ## Subscripts -/

/-- What stands in the brackets of a subscript: an expression, or a tuple of several. -/
def index (s : Span) : List Expr → Expr
  | [e] => e
  | es => .tuple s es

/-- A name with pieces in brackets. -/
def applied (line : Nat) (word : String) (items : List Piece) : Piece where
  text := word.toList ++ '[' :: (textOf items ++ "]".toList)
  marks := Mark.name line word :: ⟨.openBracket, "[", line⟩ ::
    (marksOf line items ++ [⟨.closeBracket, "]", line⟩])
  value := .subscript (.ofLine line) (.name (.ofLine line) word)
    (index (.ofLine line) (items.map value))

/-- Items in the brackets of a subscript. -/
theorem exists_continued_subscript {value : Expr}
    (h : ∀ p ∈ items, p.Reads line ∧ p.marks.length ≤ n) (hne : items ≠ [])
    (hs : s.Goes (⟨.openBracket, "[", line⟩ ::
      (marksOf line items ++ [⟨.closeBracket, "]", line⟩])) t) :
    ∃ i, continued (exprWithin n) value .subscript s =
        .ok (.subscript (value.span.through t.last) value i, t) ∧
      i.mapSpan Span.onLine = index (.ofLine line) (items.map Piece.value) := by
  obtain ⟨-, -, hline⟩ := Token.of_mark_eq hs.1 rfl (by decide)
  obtain ⟨v, hitems, hclose⟩ := TokenStream.goes_append.1 hs.tail
  have hv : v.kind = .closeBracket := hclose.kind_eq
  obtain ⟨-, -, -, rfl⟩ := hclose
  obtain ⟨first, others, u, hfirst, -, hothers, -, hcomma, hvalues⟩ := exists_items (by decide)
    (fun p hp => (h p hp).1.readsSubscriptItem (h p hp).2) hne hitems hv
  have hcommas : afterCommas (· = .closeBracket) (subscriptItem (exprWithin n)) u =
      .ok (others, v) := hothers.afterCommas_eq_ok (by decide)
  have hcontinued {i : Expr} (hi : (if u.kind != .comma then pure first else do
      return .tuple (← spanFrom s.current.span) (first :: others) : Parse Expr) v.tail =
        .ok (i, v.tail)) : continued (exprWithin n) value .subscript s =
          .ok (.subscript (value.span.through v.tail.last) value i, v.tail) := by
    rw [continued, advance_bind]
    refine bind_eq_ok.2 ⟨i, v.tail, ?_, rfl⟩
    refine bind_eq_ok.2 ⟨first, u, hfirst, ?_⟩
    rw [kind_bind]
    exact bind_eq_ok.2 ⟨others, v, hcommas, expect_bind_eq_ok.2 ⟨hv, hi⟩⟩
  rw [← hvalues]
  cases others with
  | nil =>
    have hsingle : u.kind ≠ .comma := fun hu => hcomma.1 hu rfl
    refine ⟨first, hcontinued ?_, rfl⟩
    rw [if_pos (bne_iff_ne.2 hsingle)]
    rfl
  | cons second others =>
    have hseveral : u.kind = .comma := hcomma.2 (List.cons_ne_nil _ _)
    refine ⟨_, hcontinued (i := .tuple (s.current.span.through v.tail.last)
      (first :: second :: others)) ?_, ?_⟩
    · rw [hseveral]
      rfl
    · rw [Expr.mapSpan, Expr.mapSpanIn_eq_map, Span.onLine_through, Span.onLine, hline]
      rfl

theorem reads_applied (hword : IsWord word .identifier) (h : ∀ p ∈ items, p.Reads line)
    (hne : items ≠ []) : (applied line word items).Reads line where
  begins := beginsWithWord_append hword _
  spells := (reads_name hword).spells.append (spells_bracketed h) .openBracket
  closed := depthAfter_bracketed h
  opens := ⟨_, _, rfl, rfl⟩
  reads := by
    intro s t n hs hn ht
    obtain ⟨n, rfl⟩ : ∃ m, n = m + 1 :=
      ⟨n - 1, (Nat.sub_add_cancel (Nat.le_trans (Nat.succ_pos _) hn)).symm⟩
    have hlength : ∀ p ∈ items, p.Reads line ∧ p.marks.length ≤ n := fun p hp => by
      have hle := length_le_of_mem line hp
      simp only [applied, List.length_cons, List.length_append] at hn
      exact ⟨h p hp, by omega⟩
    obtain ⟨hkind, htext, hline⟩ := Token.of_mark_eq hs.1 rfl (by decide)
    have hopening : s.kind.opening? = some .name := congrArg TokenKind.opening? hkind
    have hname : Leads (exprWithin n) .default s (.name (s.current.span.through s.tail.last)
        s.current.text) s.tail := leads_of_opened hopening rfl
    have hopen : s.tail.kind.continuation? = some .subscript := by
      rw [hs.tail.kind_eq]
      rfl
    obtain ⟨i, hcontinued, hi⟩ := exists_continued_subscript hlength hne hs.tail
    have hleads := hname.continued hopen (by decide) hcontinued hs.tail.fuel_lt
    refine ⟨_, hleads.exprOf_eq_ok (by rw [ht]; decide), ?_⟩
    rw [Expr.mapSpan, Expr.mapSpan, hi, htext, Span.onLine_through, Span.onLine_through,
      Expr.span, Span.onLine_through, Span.onLine, hline]
    rfl

/-! ## Calls -/

/-- A call of a name with a string literal. -/
def calling (line : Nat) (word literal : String) : Piece where
  text := word.toList ++ '(' :: (literal.toList ++ ")".toList)
  marks := [Mark.name line word, ⟨.openParen, "(", line⟩, ⟨.string, literal, line⟩,
    ⟨.closeParen, ")", line⟩]
  value := .call (.ofLine line) (.name (.ofLine line) word)
    [.constant (.ofLine line) (.string literal)] []

/-- A string literal is read as an argument. -/
theorem exists_argument_literal {literal : String} (hs : s.Goes [⟨.string, literal, line⟩] t)
    (ht : t.kind = .closeParen) : ∃ e, argument (exprWithin (n + 1)) s = .ok (.inl e, t) ∧
      e.mapSpan Span.onLine = .constant (.ofLine line) (.string literal) := by
  obtain ⟨hkind, htext, hline⟩ := Token.of_mark_eq hs.1 rfl (by decide)
  obtain ⟨-, -, -, rfl⟩ := hs
  have hs : s.kind = .string := hkind
  have hsingle : " ".intercalate [s.current.text] = literal := by
    rw [htext]
    rfl
  have hothers : manyWhile (fun s => s.kind = .string || s.kind = .formattedString) advance
      s.tail = .ok ([], s.tail) := Many.manyWhile_eq_ok (.done (by simp [ht]))
  let e : Expr := .constant (s.current.span.through s.tail.last)
    (.string (" ".intercalate [s.current.text]))
  have hopened : opened (exprWithin n) .string s = .ok (e, s.tail) := by
    rw [opened, advance_bind]
    refine bind_eq_ok.2 ⟨[], s.tail, hothers, ?_⟩
    rw [spanFrom_bind, if_neg (by simp [hkind])]
    rfl
  have hleads : Leads (exprWithin n) .default s e s.tail :=
    leads_of_opened (congrArg TokenKind.opening? hs) hopened
  have hread : exprWithin (n + 1) .default s = .ok (e, s.tail) :=
    hleads.exprOf_eq_ok (by rw [ht]; decide)
  refine ⟨e, skip?_bind_eq_ok.2 (.inr ⟨by rw [hs]; decide, ?_⟩), ?_⟩
  · rw [if_neg Bool.false_ne_true, kind_bind, get_bind, if_neg (by simp [hs])]
    refine bind_eq_ok.2 ⟨e, s.tail, hread, ?_⟩
    rw [get_bind, atClause, ht]
    rfl
  · rw [Expr.mapSpan, hsingle, Span.onLine_through, Span.onLine, hline]

theorem reads_calling {literal : String} (hword : IsWord word .identifier)
    (hline : '\n' ∉ literal.toList) (hliteral : ∀ rest, Lexeme.next? (literal.toList ++ rest) =
      some (.token .string literal.toList, rest)) : (calling line word literal).Reads line where
  begins := beginsWithWord_append hword _
  spells := by
    have hclose : Spells line ")".toList [⟨.closeParen, ")", line⟩] :=
      .word (isWord_of_lookup rfl) (by decide)
    have hstring : Spells line literal.toList [⟨.string, literal, line⟩] := by
      refine ⟨fun {rest} _ => ?_⟩
      have htoken := Lexes.token (hliteral rest) hline (@Lexes.done line rest)
      rwa [String.ofList_toList] at htoken
    exact (reads_name hword).spells.append (hstring.append hclose .closeParen).openParen .openParen
  closed := fun _ => rfl
  opens := ⟨_, _, rfl, rfl⟩
  reads := by
    intro s t n hs hn ht
    obtain ⟨n, rfl⟩ : ∃ m, n = m + 2 :=
      ⟨n - 2, (Nat.sub_add_cancel (Nat.le_trans (Nat.le_add_left 2 2) hn)).symm⟩
    obtain ⟨hkind, htext, hline⟩ := Token.of_mark_eq hs.1 rfl (by decide)
    have hfuel := hs.tail.tail.head.fuel_lt
    have hless := hs.tail.fuel_lt
    have hopen : s.tail.kind.continuation? = some .call := by
      rw [hs.tail.kind_eq]
      rfl
    have hclose : s.tail.tail.tail.kind = .closeParen := hs.tail.tail.tail.kind_eq
    have hliteral : s.tail.tail.kind = .string := hs.tail.tail.kind_eq
    obtain ⟨e, hargument, he⟩ := exists_argument_literal (n := n) hs.tail.tail.head hclose
    have harguments : untilClosed .closeParen (argument (exprWithin (n + 1))) s.tail.tail =
        .ok ([e].map .inl, s.tail.tail.tail) :=
      (AfterItem.done hclose).untilClosed_eq_ok (by decide) (by rw [hliteral]; decide) hargument
        hfuel
    obtain ⟨-, -, -, rfl⟩ := hs.tail.tail.tail
    have hname : Leads (exprWithin (n + 1)) .default s (.name (s.current.span.through s.tail.last)
        s.current.text) s.tail := leads_of_opened (congrArg TokenKind.opening? hkind) rfl
    -- the name leads, and the call continues it up to the closing parenthesis
    have hleads := hname.continued hopen (by decide) (continued_call harguments hclose) hless
    refine ⟨_, hleads.exprOf_eq_ok (by rw [ht]; decide), ?_⟩
    simp only [Expr.mapSpan, Expr.mapSpanIn_eq_map, List.map_singleton, he, htext,
      Span.onLine_through, Expr.span, Expr.mapSpanInKeywords_eq_map, List.map_nil]
    rw [Span.onLine, hline]
    rfl

/-! ## Parameters -/

/-- A name and what stands after its colon are read as a parameter. -/
theorem Reads.readsParameter (h : p.Reads line) (word : String) :
    ReadsItemAs (parameter Parse.expr true) (Parameter.mapSpan Span.onLine) .closeParen
      (Mark.name line word :: ⟨.colon, ":", line⟩ :: p.marks)
      ⟨word, .positional, some p.value, none⟩ where
  begins := ⟨_, _, rfl, nofun⟩
  reads := by
    intro s t hs ht
    obtain ⟨hkind, htext, -⟩ := Token.of_mark_eq hs.1 rfl (by decide)
    have hcolon : s.tail.kind = .colon := hs.tail.kind_eq
    obtain ⟨e, hread, he⟩ := h.expr hs.tail.tail (by obtain ht | ht := ht <;> rw [ht] <;> rfl)
    have hname : parameterName s = .ok ((s.current.text, .positional), s.tail) := by
      rw [parameterName, kind_bind, show s.kind = .identifier from hkind]
      rfl
    have htype : exprAfter? Parse.expr .colon s.tail = .ok (some e, t) :=
      skip?_bind_eq_ok.2 (.inl ⟨hcolon, bind_eq_ok.2 ⟨e, t, hread, rfl⟩⟩)
    have hdefault : exprAfter? Parse.expr .assign t = .ok (none, t) :=
      skip?_bind_eq_ok.2 (.inr ⟨by obtain ht | ht := ht <;> rw [ht] <;> decide, rfl⟩)
    refine ⟨⟨s.current.text, .positional, some e, none⟩, ?_, ?_⟩
    · refine bind_eq_ok.2 ⟨_, _, hname, bind_eq_ok.2 ⟨some e, t, htype, ?_⟩⟩
      exact bind_eq_ok.2 ⟨none, t, hdefault, rfl⟩
    · rw [Parameter.mapSpan, htext, Option.map_some, he]
      rfl

end Piece

end Code

namespace Signature.TypeExpr

open Code

/-! ## Types -/

mutual

/-- The expression that shows a type. -/
def expr (s : Span) : TypeExpr → Expr
  | any => .name s "Any"
  | primitive p => .name s p.name
  | named name => .name s name
  | generic container element => .subscript s (.name s container.keyword) (element.expr s)
  | dict key value => .subscript s (.name s "Dict") (.tuple s [key.expr s, value.expr s])
  | tuple elements => .subscript s (.name s "Tuple") (Piece.index s (exprs s elements))

/-- The expressions that show types side by side. -/
def exprs (s : Span) : List TypeExpr → List Expr
  | [] => []
  | type :: types => type.expr s :: exprs s types

end

@[simp] theorem exprs_eq_map (s : Span) (types : List TypeExpr) :
    exprs s types = types.map (expr s) := by
  induction types with
  | nil => rfl
  | cons type types ih => rw [exprs, ih, List.map_cons]

/-- A piece of a line is the canonical text of a type and is read as the type. -/
structure IsPiece (line : Nat) (type : TypeExpr) (p : Piece) : Prop where
  reads : p.Reads line
  text : p.text = type.render.toList
  value : p.value = type.expr (.ofLine line)

variable {line : Nat}

/-- Pieces for types side by side. -/
theorem exists_pieces {types : List TypeExpr} (h : ∀ e ∈ types, ∃ p, e.IsPiece line p) :
    ∃ items : List Piece, List.Forall₂ (IsPiece line) types items := by
  induction types with
  | nil => exact ⟨[], .nil⟩
  | cons type types ih =>
    obtain ⟨⟨p, hp⟩, htypes⟩ := List.forall_mem_cons.1 h
    obtain ⟨items, hitems⟩ := ih htypes
    exact ⟨p :: items, .cons hp hitems⟩

/-- What pieces for types come to. -/
theorem of_pieces {types : List TypeExpr} {items : List Piece}
    (h : List.Forall₂ (IsPiece line) types items) : (∀ p ∈ items, p.Reads line) ∧
      items.map Piece.text = types.map (fun e => e.render.toList) ∧
      items.map Piece.value = types.map (expr (.ofLine line)) := by
  induction h with
  | nil => exact ⟨nofun, rfl, rfl⟩
  | cons hp _ ih =>
    obtain ⟨hreads, htexts, hvalues⟩ := ih
    refine ⟨List.forall_mem_cons.2 ⟨hp.reads, hreads⟩, ?_, ?_⟩
    · rw [List.map_cons, hp.text, htexts, List.map_cons]
    · rw [List.map_cons, hp.value, hvalues, List.map_cons]

/-- A word with types in brackets. -/
theorem exists_applied (word : String) (hword : IsWord word .identifier) {types : List TypeExpr}
    (hne : types ≠ []) (h : ∀ e ∈ types, ∃ p, e.IsPiece line p) : ∃ p : Piece, p.Reads line ∧
      p.text = word.toList ++ '[' :: ([',', ' '].intercalate (types.map fun e => e.render.toList) ++
        "]".toList) ∧
      p.value = .subscript (.ofLine line) (.name (.ofLine line) word)
        (Piece.index (.ofLine line) (types.map (expr (.ofLine line)))) := by
  obtain ⟨items, hitems⟩ := exists_pieces h
  obtain ⟨hreads, htexts, hvalues⟩ := of_pieces hitems
  have hitems' : items ≠ [] := by
    rintro rfl
    cases hitems
    exact hne rfl
  refine ⟨Piece.applied line word items, Piece.reads_applied hword hreads hitems', ?_, ?_⟩
  · rw [Piece.applied, Piece.textOf, htexts]
  · rw [Piece.applied, hvalues]

/-- Every type whose names are identifiers is read as the expression that shows it. -/
theorem exists_piece {e : TypeExpr} (h : e.NamedBy (IsWord · .identifier)) (line : Nat) :
    ∃ p, e.IsPiece line p := by
  induction h with
  | any => exact ⟨_, Piece.reads_name (by decide), rfl, rfl⟩
  | @primitive p => exact ⟨_, Piece.reads_name (by cases p <;> decide), rfl, rfl⟩
  | named hname => exact ⟨_, Piece.reads_name hname, rfl, rfl⟩
  | @generic container element _ ih =>
    have hword : IsWord container.keyword .identifier := by cases container <;> decide
    obtain ⟨p, hp, htext, hvalue⟩ := exists_applied _ hword (List.cons_ne_nil element [])
      (List.forall_mem_singleton.2 ih)
    exact ⟨p, hp, by rw [htext]; simp [render, ToString.toString], by rw [hvalue]; rfl⟩
  | @dict key value _ _ ihkey ihvalue =>
    obtain ⟨p, hp, htext, hvalue⟩ := exists_applied "Dict" (by decide)
      (List.cons_ne_nil key [value]) (List.forall_mem_cons.2
        ⟨ihkey, List.forall_mem_singleton.2 ihvalue⟩)
    exact ⟨p, hp, by rw [htext]; simp [render, ToString.toString], by rw [hvalue]; rfl⟩
  | @tuple elements hne _ ih =>
    obtain ⟨p, hp, htext, hvalue⟩ := exists_applied "Tuple" (by decide) hne ih
    refine ⟨p, hp, ?_, ?_⟩
    · rw [htext, render, renderAll_eq]
      simp [String.toList_intercalate, Function.comp_def]
    · rw [hvalue, expr, exprs_eq_map]

end Signature.TypeExpr

end NoteCheck
