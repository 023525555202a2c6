/-
# Renderings are parsed back

Every rendering of a term, written on one line with single blanks between its words, is parsed as
one statement that is an expression, and the expression shows the term. So parentheses may stand
around any operand, and may be left out wherever the operators bind strongly enough.
-/
import NoteCheck.Proofs.Grammar.TermReads
import NoteCheck.Proofs.Layout.Spaced

namespace NoteCheck.Code

open Parse

/-- What reading a rendering of a part comes to. -/
def Part.Reads : Part → List String → Prop
  | operand level t, ws => ReadsTerm level t ws
  | bare t, ws => ReadsTerm t.level t ws
  | items ts, ws => ReadsItems ts ws
  | values operator ts, ws => ReadsValues operator ts ws
  | links ls, ws => ReadsLinks ls ws

/-- Every rendering is read as what it renders, by one form after the other. -/
theorem Renders.reads {part : Part} {ws : List String} (h : Renders part ws) : part.Reads ws := by
  -- `is` before an operand is not taken for `is not`
  have htight : ∀ {t ws}, Renders (.operand Level.comparison.next t) ws → BeginsFree ws :=
    fun h => h.beginsFree (show Level.comparison.rank < Level.comparison.next.rank by decide)
  induction h with
  | bare hlevel _ ih => exact ReadsTerm.mono ih hlevel
  | grouped _ ih => exact readsTerm_grouped ih
  | @name word => exact readsTerm_name word
  | @number word => exact readsTerm_number word
  | emptyTuple => exact readsTerm_emptyTuple
  | tuple _ _ hne ih ihothers => exact readsTerm_tuple ih ihothers hne
  | noItems => exact readsItems_nil
  | comma => exact readsItems_comma
  | item _ _ ih ihothers => exact readsItems_cons ih ihothers
  | binary _ _ ihleft ihright => exact readsTerm_binary ihleft ihright
  | unary _ ih => exact readsTerm_unary ih
  | boolean hjoined _ _ _ ih ihsecond ihothers =>
    exact readsTerm_boolean hjoined ih ihsecond ihothers
  | noValues => exact readsValues_nil
  | value _ _ ih ihothers => exact readsValues_cons ih ihothers
  | comparison _ hright _ ihleft ihright ihothers =>
    exact readsTerm_comparison ihleft ihright (htight hright) ihothers
  | noLinks => exact readsLinks_nil
  | link hright _ ih ihothers => exact readsLinks_cons ih (htight hright) ihothers
  | conditional _ _ _ ihbody ihtest ihorelse =>
    exact readsTerm_conditional ihbody ihtest ihorelse
  | member _ ih => exact readsTerm_member ih
  | emptyCall _ ih => exact readsTerm_emptyCall ih
  | call _ _ _ ihcallee ihfirst ihothers => exact readsTerm_call ihcallee ihfirst ihothers
  | subscript _ _ ihvalue ihindex => exact readsTerm_subscript ihvalue ihindex

/-! ## A line with an expression -/

/-- The tokens of a line of words lead a stream to the end of the line. -/
theorem spells_of_tokens {words : List String} {found : List Token} {lineEnd textEnd : Token}
    (h : List.Forall₂ Token.Spells found words) (hwords : ∀ w ∈ words, IsTermWord w)
    {s : TokenStream} (hs : s.current :: s.ahead = found ++ [lineEnd, textEnd]) :
    ∃ u : TokenStream, s.Spells words u ∧ u.current = lineEnd ∧ u.ahead = [textEnd] := by
  induction h generalizing s with
  | nil =>
    obtain ⟨hcurrent, hahead⟩ := List.cons.inj hs
    exact ⟨s, rfl, hcurrent, hahead⟩
  | @cons t word found words ht _ ih =>
    obtain ⟨⟨kind, hword, hkind⟩, hwords⟩ := List.forall_mem_cons.1 hwords
    obtain ⟨rfl, hahead⟩ := List.cons.inj hs
    rw [List.append_eq] at hahead
    have hne : s.ahead ≠ [] := by
      rw [hahead]
      exact List.append_ne_nil_of_right_ne_nil _ (List.cons_ne_nil _ _)
    obtain ⟨next, ahead, hnext⟩ := List.exists_cons_of_ne_nil hne
    have htail : s.tail = ⟨s.current.span, next, ahead⟩ :=
      TokenStream.tail_eq_of_ahead (Lexeme.kind_ne_endOfFile ht.isWord.alone) hnext
    obtain ⟨u, hu, hend⟩ := ih hwords (s := s.tail) (by rw [htail, ← hahead, hnext])
    refine ⟨u, ⟨ht, ?_, hne, hu⟩, hend⟩
    rw [TokenStream.kind, ht.isWord.unique hword]
    exact hkind

/-- A token that opens an expression opens no other statement. -/
theorem TokenKind.forms_of_opensExpr {kind : TokenKind} (h : kind.opensExpr = true) :
    kind.blockForm? = none ∧ kind.lineForm? = none := by
  cases kind <;> first | exact ⟨rfl, rfl⟩ | cases h

/-- Before anything but a comma an expression is no part of a tuple. -/
theorem Parse.exprList_eq_ok {s u : TokenStream} {e : Expr}
    (hread : exprWithin s.fuel .default s = .ok (e, u)) (hu : u.kind ≠ .comma) :
    exprList .default s = .ok (e, u) := by
  refine bind_eq_ok.2 ⟨e, u, hread, ?_⟩
  rw [kind_bind, if_neg hu]
  rfl

/-- A line break ends a line. -/
theorem Parse.endLine_eq_ok {u : TokenStream} (hu : u.kind = .newline) :
    endLine u = .ok (true, u.tail) := by
  refine skip?_bind_eq_ok.2 (.inr ⟨by rw [hu]; decide, ?_⟩)
  rw [kind_bind, hu]
  rfl

/-- An expression on a line of its own is read as a statement. -/
theorem Parse.stmt_eq_ok {s u : TokenStream} {e : Expr}
    (hread : exprWithin s.fuel .default s = .ok (e, u)) (hu : u.kind = .newline) :
    stmt s = .ok (.expression (e.span.through u.last) e, u.tail) := by
  obtain ⟨hblock, hline⟩ := TokenKind.forms_of_opensExpr (opensExpr_of_exprWithin hread)
  have hlist := exprList_eq_ok hread (by rw [hu]; decide)
  have hafter : afterExpr e u = .ok (.expression (e.span.through u.last) e, u) := by
    rw [afterExpr, kind_bind, hu]
    rfl
  have hstmt : lineStmt s = .ok (.expression (e.span.through u.last) e, u) := by
    rw [lineStmt, kind_bind, hline]
    exact bind_eq_ok.2 ⟨e, u, hlist, hafter⟩
  rw [stmt, get_bind, TokenStream.fuel, stmtWithin, stmtOf, get_bind, kind_bind, hblock]
  exact bind_eq_ok.2 ⟨_, u, hstmt, bind_eq_ok.2 ⟨true, u.tail, endLine_eq_ok hu, rfl⟩⟩

/-- A line with an expression, and nothing after it, is a block of one statement. -/
theorem Parse.block_eq_ok {s u : TokenStream} {e : Expr} {textEnd : Token}
    (hread : exprWithin s.fuel .default s = .ok (e, u)) (hu : u.kind = .newline)
    (hahead : u.ahead = [textEnd]) (htext : textEnd.kind = .endOfFile) (hfuel : u.fuel ≤ s.fuel) :
    block s = .ok ([.expression (e.span.through u.last) e], u.tail) := by
  have htail : u.tail = ⟨u.current.span, textEnd, []⟩ :=
    TokenStream.tail_eq_of_ahead (by rw [hu]; decide) hahead
  have hmore : s.hasTokens = true := bne_iff_ne.2 (kind_ne_of_exprWithin hread rfl)
  have hless : u.tail.fuel < s.fuel := by
    rw [TokenStream.fuel, hahead] at hfuel
    rw [htail]
    exact hfuel
  have hdone : u.tail.hasTokens = false := by
    rw [htail, TokenStream.hasTokens, TokenStream.kind, htext]
    rfl
  exact (Many.next hmore (stmt_eq_ok hread hu) hless (.done hdone)).manyWhile_eq_ok

/-- Tokens that are read as a block are read as its statements. -/
theorem parseTokens_eq_ok {first : Token} {others : List Token} {body : List Stmt}
    {u : TokenStream} (h : block.run (.ofTokens first others) = .ok (body, u)) :
    parseTokens (first :: others) = .ok body := by
  rw [parseTokens, h]

/-- A rendering of a term has a word. -/
theorem Renders.ne_nil {t : Term} {ws : List String} (h : Renders (.operand .conditional t) ws) :
    ws ≠ [] := by
  rintro rfl
  -- otherwise an expression would be read where the text ends
  let s : TokenStream := .ofTokens ⟨.endOfFile, "", ⟨⟨1, 1⟩, ⟨1, 1⟩⟩⟩ []
  have hreads : ReadsTerm .conditional t [] := h.reads
  obtain ⟨e, -, hread⟩ := hreads.exprWithin_default (s := s) (n := 1) rfl Nat.one_pos rfl
  cases opensExpr_of_exprWithin hread

/-- A rendering of a term is parsed as one expression that shows the term. -/
theorem exists_parse_eq_of_renders {t : Term} {ws : List String}
    (h : Renders (.operand .conditional t) ws) :
    ∃ span e, parse (" ".intercalate ws) = .ok [.expression span e] ∧ t.Shows e := by
  have hwords := h.isTermWord
  obtain ⟨found, lineEnd, textEnd, htokens, hspells, hline, htext⟩ :=
    exists_tokenize_words h.ne_nil fun w hw => (hwords w hw).imp fun _ => And.left
  obtain ⟨first, others, hfirst⟩ :=
    List.exists_cons_of_ne_nil (List.append_ne_nil_of_right_ne_nil found
      (List.cons_ne_nil lineEnd [textEnd]))
  let s : TokenStream := .ofTokens first others
  obtain ⟨u, hs, hcurrent, hahead⟩ := spells_of_tokens hspells hwords (s := s) hfirst.symm
  -- the words lead to the end of the line, and so far the expression is read
  have hu : u.kind = .newline := by rw [TokenStream.kind, hcurrent, hline]
  have hfuel : s.fuel = u.fuel + ws.length := hs.fuel_eq
  have hbound : ws.length < s.fuel := by
    rw [hfuel, TokenStream.fuel]
    omega
  have hreads : ReadsTerm .conditional t ws := h.reads
  obtain ⟨e, hshows, hread⟩ := hreads.exprWithin_default hs hbound (by rw [hu]; rfl)
  have hblock := block_eq_ok hread hu hahead htext (by omega)
  refine ⟨e.span.through u.last, e, ?_, hshows⟩
  rw [parse, htokens]
  show parseTokens (found ++ [lineEnd, textEnd]) = _
  rw [hfirst]
  exact parseTokens_eq_ok hblock

/-- A sign before the base of a power needs parentheses, and one before the exponent does not. -/
theorem exists_parse_eq_of_signed_power :
    let a : NameWord := ⟨"a", by decide⟩
    let two : NumberWord := ⟨"2", by decide⟩
    let power := Term.binary (.unary .negate (.name a)) .pow (.unary .negate (.number two))
    let ws := ["(", "-", "a", ")", "**", "-", "2", "+", "a"]
    Renders (.operand .conditional (.binary power .add (.name a))) ws ∧
      ∃ span e, parse (" ".intercalate ws) = .ok [.expression span e] ∧
        (Term.binary power .add (.name a)).Shows e := by
  intro a two power ws
  have hname {level : Level} : Renders (.operand level (.name a)) ["a"] :=
    .bare (by cases level <;> decide) .name
  have hbase : Renders (.operand .primary (.unary .negate (.name a))) ["(", "-", "a", ")"] :=
    .grouped (.bare (by decide) (.unary hname))
  have hexponent : Renders (.operand .unary (.unary .negate (.number two))) ["-", "2"] :=
    .bare (by decide) (.unary (.bare (by decide) .number))
  have hpower : Renders (.operand .sum power) ["(", "-", "a", ")", "**", "-", "2"] :=
    .bare (by decide) (@Renders.binary _ .pow _ _ _ hbase hexponent)
  have hrenders : Renders (.operand .conditional (.binary power .add (.name a))) ws :=
    .bare (by decide) (@Renders.binary _ .add _ _ _ hpower hname)
  exact ⟨hrenders, exists_parse_eq_of_renders hrenders⟩

end NoteCheck.Code
