/-
# Code after other lines

A text that consists of statements at the left margin, the last of which has a block, and of code
after them. The main statement, `Margin.parse_iff`: the text is read as the statements and those of
the code just if the first line of the code that is not blank holds a token.
-/
import NoteCheck.Proofs.Grammar.StmtSound
import NoteCheck.Proofs.Layout.AfterBlock
import NoteCheck.Proofs.Stub.Margin

namespace NoteCheck.Code

open Parse

variable {s t u : TokenStream} {line : Nat} {a : Stmt} {body others : List Stmt} {code : String}

/-! ## Reading tokens -/

/-- Tokens that are the same up to spans are read as statements that are the same up to spans. -/
theorem exists_block_of_shapes {tokens tokens' : List Token} (htokens : tokenize code = .ok tokens)
    (hshapes : tokens'.map Token.shape = tokens.map Token.shape) (hs : s.tokens = tokens)
    (ht : t.tokens = tokens') (hblock : block s = .ok (body, u)) :
    ∃ body' w, block t = .ok (body', w) ∧ body'.map Stmt.bare = body.map Stmt.bare := by
  have hlike : List.Forall₂ (Token.Like (fun _ => ⟨.start, .start⟩) fun _ => ⟨.start, .start⟩)
      tokens tokens' := by
    have hsame : List.Forall₂ (· = ·) (tokens.map Token.shape) (tokens'.map Token.shape) := by
      rw [hshapes]
      exact List.forall₂_refl _
    rw [List.forall₂_map_left_iff, List.forall₂_map_right_iff] at hsame
    exact hsame.imp fun _ _ hab => ⟨hab, fun _ => rfl⟩
  obtain ⟨body', w, hread, hbody⟩ :=
    exists_block_of_like (fun _ _ => rfl) (fun _ _ => rfl) htokens hlike hs ht hblock
  exact ⟨body', w, hread, hbody.symm⟩

theorem exists_parseTokens_eq {tokens tokens' : List Token} (htokens : tokenize code = .ok tokens)
    (hshapes : tokens'.map Token.shape = tokens.map Token.shape)
    (h : parseTokens tokens = .ok body) :
    ∃ body', parseTokens tokens' = .ok body' ∧ body'.map Stmt.bare = body.map Stmt.bare := by
  cases tokens with
  | nil =>
    rw [List.map_eq_nil_iff.1 hshapes]
    exact ⟨body, h, rfl⟩
  | cons first others =>
    obtain ⟨first', others', rfl, -⟩ := List.map_eq_cons_iff.1 hshapes
    obtain ⟨u, hblock⟩ := exists_block_of_parseTokens h
    obtain ⟨body', w, hread, hbody⟩ := exists_block_of_shapes htokens hshapes
      (s := .ofTokens first others) (t := .ofTokens first' others') rfl rfl hblock
    exact ⟨body', parseTokens_eq_ok hread, hbody⟩

/-! ## The blocks that are open after lines -/

/-- The indentation of the last line that is not blank, after lines with the given one. -/
def Row.lastWidth (width : Nat) (rows : List Row) : Nat :=
  rows.foldl (fun width row => match row with
    | .blank _ => width
    | .words width _ => width) width

theorem Enters.headD_eq {blocks inner : List Nat} {width : Nat} {kinds : List TokenKind}
    (h : Enters blocks width kinds inner) : inner.headD 0 = width := by
  cases h with
  | opens => rfl
  | closes _ hkept => exact hkept

theorem Marked.headD_eq {blocks last : List Nat} {rows : List Row} {marks : List Mark}
    (h : Marked blocks line rows marks last) :
    last.headD 0 = Row.lastWidth (blocks.headD 0) rows := by
  induction h with
  | nil => rfl
  | blank _ ih => exact ih
  | words henters _ _ ih =>
    rw [ih, henters.headD_eq]
    rfl

variable {rows : List Row} {text : String}

/-- Lines at the left margin are read up to the text after them, with the blocks of the last one
open. -/
theorem Margin.exists_tokenize_eq (h : Margin 1 rows body) (hwidth : 0 < Row.lastWidth 0 rows) :
    ∃ marks deeper, Precedes marks body ∧ deeper ≠ [] ∧ (∀ b ∈ deeper, 0 < b) ∧
      ∀ {code text : String}, text.toList = Row.unlines rows ++ code.toList →
        ∃ found, found.map Token.mark ++ dedents deeper = marks ∧ tokenize text =
          (Reader.atLine deeper (1 + rows.length) code.toList).tokens.map (found ++ ·) := by
  obtain ⟨marks, hmarks, hopens⟩ := h.exists_marks
  obtain ⟨spelled, deeper, hmarked, hdeeper, hclosed⟩ := @hopens [] nofun
  rw [List.append_nil deeper] at hmarked
  refine ⟨marks, deeper, hmarks, ?_, hdeeper, fun {code text} htext => ?_⟩
  · rintro rfl
    have hlast : 0 = Row.lastWidth 0 rows := hmarked.headD_eq
    exact Nat.ne_of_lt hwidth hlast
  · obtain ⟨found, hfound, hreads⟩ := hmarked.exists_reads code.toList
    refine ⟨found, by rw [hfound]; exact hclosed, ?_⟩
    rw [← hreads.tokens_eq, tokenize, ← htext]
    rfl

theorem map_mark_of_shape {found : List Token} {n : Nat}
    (h : found.map Token.shape = List.replicate n (.dedent, "")) :
    found.map Token.mark = List.replicate n (.layout .dedent) := by
  obtain ⟨hlength, hshapes⟩ := List.eq_replicate_iff.1 h
  rw [List.length_map] at hlength
  refine List.eq_replicate_iff.2 ⟨by rw [List.length_map, hlength], ?_⟩
  rw [List.forall_mem_map] at hshapes ⊢
  intro t ht
  have hkind : t.kind = .dedent := congrArg Prod.fst (hshapes t ht)
  rw [Token.mark, hkind]
  rfl

/-- The tokens of lines, and of the ends of blocks after them, lead a stream to the tokens that
follow. -/
theorem exists_goes_of_tokenize {found closed rest : List Token} {deeper : List Nat}
    {marks : List Mark} (htokens : tokenize text = .ok (found ++ (closed ++ rest)))
    (hmarks : found.map Token.mark ++ dedents deeper = marks)
    (hclosed : closed.map Token.shape = List.replicate deeper.length (.dedent, ""))
    (hrest : rest ≠ []) :
    ∃ first tokens t, found ++ (closed ++ rest) = first :: tokens ∧
      (TokenStream.ofTokens first tokens).Goes marks t ∧ t.current :: t.ahead = rest := by
  obtain ⟨before, last, hbefore, -, hends⟩ := endsOnce_of_tokenize htokens
  rw [← List.append_assoc] at hbefore ⊢
  obtain ⟨first, tokens, hfirst⟩ :=
    List.exists_cons_of_ne_nil (List.append_ne_nil_of_right_ne_nil (found ++ closed) hrest)
  have hmiddle : ∀ t ∈ found ++ closed, t.kind ≠ .endOfFile := by
    intro t ht
    refine hends t ?_
    rw [← @List.dropLast_concat _ before last, ← hbefore,
      List.dropLast_append_of_ne_nil hrest]
    exact List.mem_append_left _ ht
  obtain ⟨t, hgoes, ht⟩ := TokenStream.exists_goes (s := .ofTokens first tokens) hfirst.symm hrest
    hmiddle
  refine ⟨first, tokens, t, hfirst, ?_, ht⟩
  have hdedents : closed.map Token.mark = dedents deeper := by
    rw [map_mark_of_shape hclosed, dedents, List.map_const']
  rwa [List.map_append, hdedents, hmarks] at hgoes

/-- Code after lines at the left margin, the last of which has a block, is read after them just if
its first line that is not blank holds a token. -/
theorem Margin.parse_iff (h : Margin 1 rows body) (hwidth : 0 < Row.lastWidth 0 rows)
    (htext : text.toList = Row.unlines rows ++ code.toList) (hcode : parse code = .ok others) :
    (∃ all, parse text = .ok all ∧ all.map Stmt.bare = (body ++ others).map Stmt.bare) ↔
      ¬Hollow code.toList := by
  obtain ⟨marks, deeper, hmarks, hne, hdeeper, htokenize⟩ := h.exists_tokenize_eq hwidth
  obtain ⟨found, hfound, htokens⟩ := htokenize htext
  obtain ⟨tokens, halone, hparse⟩ := exists_tokens_of_parse hcode
  have hread : (Reader.atLine [] (1 + rows.length) code.toList).tokens =
      .ok (tokens.map (Token.down rows.length)) :=
    Reader.tokens_down (r := .atLine [] 1 code.toList) halone
  have hindent :=
    forall_head?_down (p := (· ≠ .indent)) (head_ne_indent_of_parseTokens hparse) rows.length
  constructor
  -- a line without tokens closes the block by itself, and the line break after it begins no
  -- statement
  · rintro ⟨all, hall, -⟩ hhollow
    obtain ⟨whole, hwhole, hall⟩ := exists_tokens_of_parse hall
    have hsame := htokens.symm.trans hwhole
    obtain ⟨rest, hrest, rfl⟩ := Results.map_eq_ok.1 hsame
    obtain ⟨closed, t, more, rfl, hclosed, ht⟩ :=
      Reader.exists_newline_of_hollow hhollow hdeeper hne hread hindent hrest
    obtain ⟨first, tokens, v, hfirst, hgoes, hv⟩ :=
      exists_goes_of_tokenize hwhole hfound hclosed (List.cons_ne_nil t more)
    have hnewline : v.kind = .newline := by
      rw [TokenStream.kind, (List.cons.inj hv).1, ht]
    rw [hfirst] at hall
    exact (hmarks.stuck hgoes (stuck_of_newline hnewline)).parseTokens_ne_ok hall
  -- else the block is closed at the first token of the code, whose tokens have only moved down
  · intro hhollow
    obtain ⟨closed, hrest, hclosed⟩ :=
      Reader.exists_tokens_after_blocks hdeeper hread hhollow hindent
    rw [hrest] at htokens
    have hshapes : (tokens.map (Token.down rows.length)).map Token.shape = tokens.map Token.shape :=
      List.map_map
    generalize tokens.map (Token.down rows.length) = rest at htokens hshapes
    cases tokens with
    | nil =>
      obtain ⟨before, last, hnil, -⟩ := endsOnce_of_tokenize halone
      exact absurd hnil.symm (List.append_ne_nil_of_right_ne_nil before (List.cons_ne_nil _ _))
    | cons first' others' =>
      have hne' : rest ≠ [] := by
        rintro rfl
        cases hshapes
      obtain ⟨u, hblock⟩ := exists_block_of_parseTokens hparse
      obtain ⟨first, tokens, v, hfirst, hgoes, hv⟩ :=
        exists_goes_of_tokenize htokens hfound hclosed hne'
      obtain ⟨body', w, hblock', hbody'⟩ := exists_block_of_shapes halone hshapes
        (s := .ofTokens first' others') rfl hv hblock
      obtain ⟨found', hwhole, hmap⟩ := hmarks.reads hgoes hblock'
      refine ⟨found' ++ body', ?_, by rw [List.map_append, List.map_append, hmap, hbody']⟩
      rw [parse, htokens]
      show parseTokens (found ++ (closed ++ rest)) = _
      rw [hfirst]
      exact parseTokens_eq_ok hwhole

end NoteCheck.Code
