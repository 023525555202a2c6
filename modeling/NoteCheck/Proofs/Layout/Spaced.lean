/-
# Tokens with blanks between them

A text that is a token as a whole is the same token before a blank, be it a word or a string
literal. So texts of tokens with single blanks between them are read one by one. The main statement,
`exists_tokenize_intercalate_of_sole`: the tokens are those that are found in the texts by
themselves, and after them the ends of the line and of the text.
-/
import NoteCheck.Proofs.Layout.Coverage
import NoteCheck.Proofs.Layout.Cut

namespace NoteCheck.Code

/-! ## String literals -/

namespace StringLiteral

variable {cs piece rest text : List Char}

/-- A literal in single quotes that is the whole text does not begin with three quotes. -/
theorem triple?_append_eq_none (h : single? piece = some (piece, [])) (hrest : Delimited rest) :
    triple? (piece ++ rest) = none := by
  have hclose {quote : Char} (hquote : quote ≠ '\\') (cs : List Char) :
      closeSingle? quote (quote :: cs) = some ([quote], cs) :=
    (closeSingle?.eq_3 quote quote cs fun _ _ h _ => hquote h).trans (if_pos rfl)
  obtain _ | ⟨a, _ | ⟨b, _ | ⟨c, cs⟩⟩⟩ := piece
  · cases h
  · rw [single?] at h
    split at h <;> cases h
  · -- the next character is no quote
    cases rest with
    | nil => rfl
    | cons c cs =>
      have hc := hrest.mem_delimiters (c := c) rfl
      rw [List.cons_append, List.cons_append, List.nil_append, triple?, if_neg]
      rintro ⟨ha, -, rfl⟩
      have hquote : ∀ d ∈ delimiters, ¬(d = '"' ∨ d = '\'') :=
        List.all_iff_forall_prop.1 (by decide)
      exact hquote c hc ha
  · rw [List.cons_append, List.cons_append, List.cons_append, triple?, if_neg]
    rintro ⟨ha, rfl, rfl⟩
    have hne : c ≠ '\\' := by rcases ha with rfl | rfl <;> decide
    -- it would be closed by the second quote
    rw [single?, if_pos ha, hclose hne] at h
    cases h

/-- A string literal that is the whole text is read before a delimiter. -/
theorem read?_append_of_alone (h : read? text = some (text, [])) (hrest : Delimited rest) :
    read? (text ++ rest) = some (text, rest) := by
  obtain ⟨marks, literal, piece, htext, hpiece, hleads, hplain, hbody⟩ := read?_eq_some_iff.1 h
  obtain rfl : literal = piece := List.append_cancel_left (htext.symm.trans hpiece)
  have hread : body? (literal ++ rest) = some (literal, rest) := by
    rcases Split.of_orElse hbody with htriple | hsingle
    · rw [body?, triple?_of_piece htriple]
      rfl
    · rw [body?, triple?_append_eq_none hsingle hrest]
      exact single?_of_piece hsingle rest
  exact read?_eq_some_iff.2 ⟨marks, literal ++ rest, literal, by rw [htext, List.append_assoc],
    hpiece, hleads, hplain, hread⟩

end StringLiteral

/-! ## Texts of single tokens -/

/-- A text that is a token as a whole. -/
def StandsAlone (text : String) (kind : TokenKind) : Prop :=
  Lexeme.next? text.toList = some (.token kind text.toList, [])

namespace StandsAlone

variable {text : String} {kind : TokenKind} {rest : List Char}

theorem ne_nil (h : StandsAlone text kind) : text.toList ≠ [] := (Lexeme.next?_eq_some h).1

/-- It is a string literal or a word. -/
theorem string_or_isWord (h : StandsAlone text kind) :
    (StringLiteral.read? text.toList = some (text.toList, []) ∧
      kind = StringLiteral.kind text.toList) ∨ IsWord text kind := by
  cases hread : StringLiteral.read? text.toList with
  | none =>
    have hkind : kind ≠ .string ∧ kind ≠ .formattedString :=
      Lexeme.kind_of_next?_of_eq_none (p := fun kind => kind ≠ .string ∧ kind ≠ .formattedString)
        (by decide) (by decide) (by decide) (by decide) hread h
    exact .inr ⟨h, hkind.1, hkind.2⟩
  | some s =>
    have halone := h
    rw [StandsAlone, Lexeme.next?, hread] at halone
    obtain ⟨htoken, hleft⟩ := Prod.mk.inj (Option.some.inj halone)
    obtain ⟨hkind, htext⟩ := Lexeme.token.inj htoken
    rw [htext] at hkind
    exact .inl ⟨congrArg some (Prod.ext htext hleft), hkind.symm⟩

/-- A token that is followed by a delimiter is the same token. -/
theorem next?_append (h : StandsAlone text kind) (hrest : Delimited rest) :
    Lexeme.next? (text.toList ++ rest) = some (.token kind text.toList, rest) := by
  rcases h.string_or_isWord with ⟨hread, rfl⟩ | hword
  · rw [Lexeme.next?, StringLiteral.read?_append_of_alone hread hrest]
  · exact hword.next?_append hrest

/-- No token begins with a blank. -/
theorem isBlank_head (h : StandsAlone text kind) {c : Char} {more : List Char}
    (htext : text.toList = c :: more) : Gap.isBlank c = false := by
  rcases h.string_or_isWord with ⟨hread, -⟩ | hword
  · refine Bool.eq_false_iff.2 fun hblank => ?_
    have hnone (hquote : c ≠ '"' ∧ c ≠ '\'') (hstart : Word.isStart c = false) : False := by
      rw [htext, StringLiteral.read?_eq_none_of_head hquote hstart] at hread
      cases hread
    simp only [Gap.isBlank, Bool.or_eq_true, beq_iff_eq] at hblank
    rcases hblank with ((rfl | rfl) | rfl) | rfl <;> exact hnone (by decide) rfl
  · exact hword.isBlank_head htext

theorem isBlank_head_append (h : StandsAlone text kind) (rest : List Char) :
    ∀ c ∈ (text.toList ++ rest).head?, Gap.isBlank c = false := by
  obtain ⟨c, more, htext⟩ := List.exists_cons_of_ne_nil h.ne_nil
  intro d hd
  rw [htext] at hd
  obtain rfl := Option.some.inj hd
  exact h.isBlank_head htext

end StandsAlone

/-! ## Lines of tokens -/

namespace Reader

/-- A reader inside a line, with no block open. -/
structure InLine (r : Reader) : Prop where
  blocks : r.blocks = []
  lineStart : r.atLineStart = false
  betweenLines : r.betweenLines = false

theorem InLine.finish {r : Reader} (h : r.InLine) :
    r.finish = [r.marker .newline, r.marker .endOfFile] := by
  rw [Reader.finish, h.blocks, h.betweenLines]
  rfl

theorem InLine.enterLine {r : Reader} (h : r.InLine) : r.enterLine = .ok ([], r) :=
  enterLine_of_atLineStart h.lineStart

/-- A blank inside a line is passed over. -/
theorem InLine.exists_tokens_eq {r : Reader} (hr : r.InLine) {rest : List Char}
    (hrest : r.rest = ' ' :: rest) (h : Lexeme.next? (' ' :: rest) = some (.gap [' '], rest)) :
    ∃ next : Reader, r.tokens = next.tokens ∧ next.InLine ∧ next.rest = rest := by
  have hstep := step_of_next? hr.enterLine (hrest ▸ h)
  refine ⟨(r.take (.gap [' ']) rest).2, ?_, ⟨hr.blocks, hr.lineStart, hr.betweenLines⟩, rfl⟩
  rw [tokens_eq_of_step (by rw [hrest]; exact List.cons_ne_nil _ _) hstep]
  exact congrFun Except.map_id _

/-- Reading a token inside a line. -/
theorem exists_step_of_standsAlone {r entered : Reader} (hline : r.enterLine = .ok ([], entered))
    (hblocks : entered.blocks = []) (hstart : entered.atLineStart = false)
    {text : String} {kind : TokenKind} (htext : StandsAlone text kind) {rest : List Char}
    (hdelimited : Delimited rest) (hrest : entered.rest = text.toList ++ rest) :
    ∃ t next, r.step = .ok ([t], next) ∧ (t.kind, t.text) = (kind, text) ∧ next.rest = rest ∧
      next.InLine := by
  have hnext : Lexeme.next? entered.rest = some (.token kind text.toList, rest) := by
    rw [hrest, htext.next?_append hdelimited]
  refine ⟨_, _, step_of_next? hline hnext, ?_, rfl, hblocks, hstart, rfl⟩
  exact congrArg (kind, ·) String.ofList_toList

/-- The texts of the rest of a line, each after a blank. -/
def spaced (texts : List String) : List Char := texts.flatMap fun text => ' ' :: text.toList

theorem delimited_spaced (texts : List String) : Delimited (spaced texts) := by
  cases texts with
  | nil => exact .nil
  | cons => exact .blank

/-- The rest of a line is read token by token. -/
theorem exists_tokens_of_spaced {pieces : List (TokenKind × String)}
    (hpieces : ∀ p ∈ pieces, StandsAlone p.2 p.1) :
    ∀ {r : Reader}, r.InLine → r.rest = spaced (pieces.map Prod.snd) →
      ∃ (found : List Token) (last : Reader), r.tokens = .ok (found ++ last.finish) ∧
        last.InLine ∧ found.map (fun t => (t.kind, t.text)) = pieces := by
  induction pieces with
  | nil =>
    intro r hr hrest
    refine ⟨[], r, ?_, hr, rfl⟩
    have hnil : r.rest = [] := hrest
    rw [Reader.tokens, dif_pos hnil]
    rfl
  | cons piece pieces ih =>
    intro r hr hrest
    obtain ⟨hpiece, hpieces⟩ := List.forall_mem_cons.1 hpieces
    -- first the blank, which finds nothing, and then the token
    obtain ⟨inner, htokens, hinner, hrest⟩ := hr.exists_tokens_eq hrest
      (Lexeme.next?_blank (hpiece.isBlank_head_append (spaced (pieces.map Prod.snd))))
    obtain ⟨t, next, hstep, ht, hnext, hline⟩ := exists_step_of_standsAlone hinner.enterLine
      hinner.blocks hinner.lineStart hpiece (delimited_spaced _) hrest
    obtain ⟨found, last, hfound, hlast, hspells⟩ := ih hpieces hline hnext
    have hne : inner.rest ≠ [] := by
      rw [hrest]
      exact List.append_ne_nil_of_left_ne_nil hpiece.ne_nil _
    refine ⟨t :: found, last, ?_, hlast, congrArg₂ List.cons ht hspells⟩
    rw [htokens, tokens_eq_of_step hne hstep, hfound]
    rfl

/-- Before the first token there is no indentation, and no block to open or to close. -/
theorem enterLine_ofText {code text : String} {kind : TokenKind} (htext : StandsAlone text kind)
    {rest : List Char} (hcode : code.toList = text.toList ++ rest) :
    (ofText code).enterLine = .ok ([], { ofText code with atLineStart := false }) := by
  obtain ⟨c, more, hmore⟩ := List.exists_cons_of_ne_nil htext.ne_nil
  have hblank := htext.isBlank_head hmore
  rw [hmore] at hcode
  have hindent : isIndent c = false := by
    rw [Gap.isBlank, Bool.or_eq_false_iff] at hblank
    exact hblank.1
  simp [Reader.enterLine, indent, enterBlock, ofText, hcode, hindent, past, indentWidth,
    indentation]

end Reader

theorem toList_intercalate_blank (first : String) (others : List String) :
    (" ".intercalate (first :: others)).toList = first.toList ++ Reader.spaced others := by
  rw [String.toList_intercalate, List.map_cons]
  induction others generalizing first with
  | nil => simp [Reader.spaced]
  | cons second others ih =>
    rw [List.map_cons, List.intercalate_cons_cons, ih]
    simp [Reader.spaced]

/-- Texts of tokens with single blanks between them are read token by token. -/
theorem exists_tokenize_intercalate {pieces : List (TokenKind × String)} (hne : pieces ≠ [])
    (hpieces : ∀ p ∈ pieces, StandsAlone p.2 p.1) : ∃ found lineEnd textEnd,
      tokenize (" ".intercalate (pieces.map Prod.snd)) = .ok (found ++ [lineEnd, textEnd]) ∧
        found.map (fun t => (t.kind, t.text)) = pieces ∧ lineEnd.kind = .newline ∧
          textEnd.kind = .endOfFile := by
  obtain ⟨piece, pieces, rfl⟩ := List.exists_cons_of_ne_nil hne
  obtain ⟨hpiece, hpieces⟩ := List.forall_mem_cons.1 hpieces
  rw [List.map_cons]
  have hcode := toList_intercalate_blank piece.2 (pieces.map Prod.snd)
  obtain ⟨t, next, hstep, ht, hnext, hline⟩ := Reader.exists_step_of_standsAlone
    (Reader.enterLine_ofText hpiece hcode) rfl rfl hpiece (Reader.delimited_spaced _) hcode
  obtain ⟨found, last, hfound, hlast, hspells⟩ :=
    Reader.exists_tokens_of_spaced hpieces hline hnext
  have hrest : (Reader.ofText (" ".intercalate (piece.2 :: pieces.map Prod.snd))).rest ≠ [] := by
    rw [Reader.ofText, hcode]
    exact List.append_ne_nil_of_left_ne_nil hpiece.ne_nil _
  refine ⟨t :: found, last.marker .newline, last.marker .endOfFile, ?_,
    congrArg₂ List.cons ht hspells, rfl, rfl⟩
  rw [tokenize, Reader.tokens_eq_of_step hrest hstep, hfound, hlast.finish]
  rfl

/-- A line of words is read word by word. -/
theorem exists_tokenize_words {words : List String} (hne : words ≠ [])
    (hwords : ∀ w ∈ words, ∃ kind, IsWord w kind) : ∃ found lineEnd textEnd,
      tokenize (" ".intercalate words) = .ok (found ++ [lineEnd, textEnd]) ∧
        List.Forall₂ Token.Spells found words ∧ lineEnd.kind = .newline ∧
          textEnd.kind = .endOfFile := by
  obtain ⟨pieces, rfl, hpieces⟩ : ∃ pieces : List (TokenKind × String),
      pieces.map Prod.snd = words ∧ ∀ p ∈ pieces, IsWord p.2 p.1 := by
    clear hne
    induction words with
    | nil => exact ⟨[], rfl, List.forall_mem_nil _⟩
    | cons word words ih =>
      obtain ⟨⟨kind, hword⟩, hwords⟩ := List.forall_mem_cons.1 hwords
      obtain ⟨pieces, rfl, hpieces⟩ := ih hwords
      exact ⟨(kind, word) :: pieces, rfl, List.forall_mem_cons.2 ⟨hword, hpieces⟩⟩
  obtain ⟨found, lineEnd, textEnd, htokens, hfound, hends⟩ := exists_tokenize_intercalate
    (fun hnil => hne (congrArg (List.map Prod.snd) hnil)) fun p hp => (hpieces p hp).alone
  refine ⟨found, lineEnd, textEnd, htokens, ?_, hends⟩
  rw [← hfound, List.forall_mem_map] at hpieces
  rw [← hfound, List.map_map, List.forall₂_map_right_iff, List.forall₂_same]
  exact fun t ht => ⟨rfl, hpieces t ht⟩

/-! ## Texts that are read as one token -/

namespace Reader

variable {r entered next : Reader} {layout taken tokens : List Token}

/-- The marks before a line stand for no text. -/
theorem text_of_enterLine (h : r.enterLine = .ok (layout, entered)) :
    ∀ t ∈ layout, t.text = "" := by
  intro t ht
  obtain rfl | rfl := eq_marker_of_enterLine h t ht <;> rfl

/-- The text of a token is taken from the text that is read. -/
theorem length_text_of_lexeme (h : r.lexeme = .ok (taken, next)) :
    ∀ t ∈ taken, t.text.toList.length + next.rest.length ≤ r.rest.length := by
  obtain ⟨l, rest, hnext, htake⟩ | ⟨-, rfl, -⟩ := lexeme_eq_ok.1 h
  · obtain ⟨hne, hcut⟩ := Lexeme.next?_eq_some hnext
    have hpos := List.length_pos_iff.2 hne
    have hlength : l.text.length + rest.length = r.rest.length := by
      rw [← hcut, List.length_append]
    cases take_eq_iff.1 htake with
    | token =>
      refine List.forall_mem_singleton.2 (Nat.le_of_eq ?_)
      rw [String.toList_ofList]
      exact hlength
    | lineEnd =>
      have hbreak : "\n".toList.length = 1 := rfl
      refine List.forall_mem_singleton.2 ?_
      show "\n".toList.length + rest.length ≤ r.rest.length
      omega
    | lineBreak | gap => exact List.forall_mem_nil _
  · exact List.forall_mem_nil _

theorem length_text_le (h : r.tokens = .ok tokens) :
    ∀ t ∈ tokens, t.text.toList.length ≤ r.rest.length := by
  induction r using Reader.tokens.induct generalizing tokens with
  | case1 r hnil =>
    rw [tokens_of_rest_eq_nil hnil] at h
    obtain rfl := Except.ok.inj h
    intro t ht
    obtain ⟨-, -, -, -, htext⟩ := r.isClosing_finish
    rw [htext t ht]
    exact Nat.zero_le _
  | case2 r hne e hstep => cases (tokens_of_step_eq_error hne hstep).symm.trans h
  | case3 r hne found next hstep ih =>
    rw [tokens_eq_of_step hne hstep] at h
    obtain ⟨others, hothers, rfl⟩ := Results.map_eq_ok.1 h
    have hless := length_rest_step hne hstep
    obtain ⟨layout, entered, taken, hline, hlexeme, rfl⟩ := step_eq_ok_iff.1 hstep
    intro t ht
    rcases List.mem_append.1 ht with ht | ht
    · rcases List.mem_append.1 ht with ht | ht
      · rw [text_of_enterLine hline t ht]
        exact Nat.zero_le _
      · have hle := length_rest_enterLine hline
        have hle' := length_text_of_lexeme hlexeme t ht
        omega
    · have hle := ih hothers t ht
      omega

/-- A token whose text is all of the text that is left is found by the first lexeme, without
indentation before it. -/
theorem exists_lexeme_of_length {t : Token} (hne : r.rest ≠ []) (h : r.tokens = .ok (t :: tokens))
    (hlength : t.text.toList.length = r.rest.length) : ∃ entered taken next,
      r.enterLine = .ok ([], entered) ∧ entered.lexeme = .ok (t :: taken, next) := by
  cases hstep : r.step with
  | error e => cases (tokens_of_step_eq_error hne hstep).symm.trans h
  | ok s =>
    obtain ⟨found, next⟩ := s
    rw [tokens_eq_of_step hne hstep] at h
    obtain ⟨others, hothers, hfound⟩ := Results.map_eq_ok.1 h
    have hless := length_rest_step hne hstep
    obtain ⟨layout, entered, taken, hline, hlexeme, rfl⟩ := step_eq_ok_iff.1 hstep
    cases layout with
    | cons mark marks =>
      have hmark : t.text = "" := by
        rw [← (List.cons.inj hfound).1]
        exact text_of_enterLine hline mark (List.mem_cons_self ..)
      rw [hmark] at hlength
      exact absurd (List.length_eq_zero_iff.1 hlength.symm) hne
    | nil =>
      cases taken with
      | nil =>
        -- a later token would have to be shorter
        have hmem : t ∈ others := by
          rw [show others = t :: tokens from hfound]
          exact List.mem_cons_self ..
        have hle := length_text_le hothers t hmem
        omega
      | cons first taken =>
        obtain rfl : first = t := (List.cons.inj hfound).1
        exact ⟨entered, taken, _, hline, hlexeme⟩

/-- The first token that a lexeme gives is the lexeme, or the end of a line. -/
theorem next?_of_lexeme {t : Token} (h : r.lexeme = .ok (t :: taken, next)) :
    (∃ rest, Lexeme.next? r.rest = some (.token t.kind t.text.toList, rest)) ∨
      t.text = "\n" := by
  obtain ⟨l, rest, hnext, htake⟩ | ⟨-, hnil, -⟩ := lexeme_eq_ok.1 h
  · cases take_eq_iff.1 htake with
    | token => exact .inl ⟨rest, by rw [hnext, String.toList_ofList]⟩
    | lineEnd => exact .inr rfl
  · cases hnil

end Reader

/-- A text is one token as a whole when it is read by itself, and after it come the ends of the line
and of the text. -/
def IsSole (kind : TokenKind) (text : String) : Prop :=
  ∃ t lineEnd textEnd, tokenize text = .ok [t, lineEnd, textEnd] ∧ (t.kind, t.text) = (kind, text) ∧
    lineEnd.kind = .newline ∧ textEnd.kind = .endOfFile

theorem isSole_of_shapes {p : TokenKind × String} {lineEnd textEnd : String}
    (h : (tokenize p.2).toOption.map (List.map fun t => (t.kind, t.text)) =
      some [p, (.newline, lineEnd), (.endOfFile, textEnd)]) : IsSole p.1 p.2 := by
  obtain ⟨tokens, hread, hshapes⟩ := Option.map_eq_some_iff.1 h
  obtain ⟨t, _, rfl, ht, hmore⟩ := List.map_eq_cons_iff.1 hshapes
  obtain ⟨l, _, rfl, hl, hmore⟩ := List.map_eq_cons_iff.1 hmore
  obtain ⟨e, rfl, he⟩ := List.map_eq_singleton_iff.1 hmore
  refine ⟨t, l, e, ?_, ht, congrArg Prod.fst hl, congrArg Prod.fst he⟩
  cases hok : tokenize p.2 with
  | error fault =>
    rw [hok] at hread
    cases hread
  | ok found =>
    rw [hok] at hread
    exact congrArg Except.ok (Option.some.inj hread)

theorem IsSole.standsAlone {kind : TokenKind} {text : String} (h : IsSole kind text) :
    StandsAlone text kind := by
  obtain ⟨t, lineEnd, textEnd, htokens, hshape, -, -⟩ := h
  obtain ⟨rfl, rfl⟩ := Prod.mk.inj hshape
  have hne : (Reader.ofText t.text).rest ≠ [] := by
    intro hnil
    rw [tokenize, Reader.tokens_of_rest_eq_nil hnil] at htokens
    have hlength := congrArg List.length (Except.ok.inj htokens)
    cases hlength
  obtain ⟨entered, taken, next, hline, hlexeme⟩ :=
    Reader.exists_lexeme_of_length hne htokens rfl
  have hle : entered.rest.length ≤ t.text.toList.length := Reader.length_rest_enterLine hline
  rcases Reader.next?_of_lexeme hlexeme with ⟨rest, hnext⟩ | hbreak
  · -- the token leaves nothing
    obtain ⟨-, hcut⟩ := Lexeme.next?_eq_some hnext
    have hcut : t.text.toList ++ rest = entered.rest := hcut
    have hrest : rest = [] := by
      rw [← hcut, List.length_append] at hle
      exact List.length_eq_zero_iff.1 (by omega)
    rw [hrest, List.append_nil] at hcut
    rw [← hcut, hrest] at hnext
    exact hnext
  · have hempty : ((tokenize "\n").toOption.map List.length) = some 1 := by decide +kernel
    rw [hbreak] at htokens
    rw [htokens] at hempty
    cases hempty

/-- Texts of which each one is a token by itself are read as these tokens where single blanks stand
between them, and after them come the ends of the line and of the text. -/
theorem exists_tokenize_intercalate_of_sole {pieces : List (TokenKind × String)} (hne : pieces ≠ [])
    (h : ∀ p ∈ pieces, IsSole p.1 p.2) : ∃ found lineEnd textEnd,
      tokenize (" ".intercalate (pieces.map Prod.snd)) = .ok (found ++ [lineEnd, textEnd]) ∧
        found.map (fun t => (t.kind, t.text)) = pieces ∧ lineEnd.kind = .newline ∧
          textEnd.kind = .endOfFile :=
  exists_tokenize_intercalate hne fun p hp => (h p hp).standsAlone

/-- Brackets that are not closed, a literal over two lines, and marks and words that begin other
tokens. -/
theorem exists_tokenize_intercalate_of_brackets :
    let pieces : List (TokenKind × String) := [(.openParen, "("), (.identifier, "r"),
      (.string, "'''a\nb'''"), (.string, "''"), (.star, "*"), (.doubleStar, "**"), (.assign, "="),
      (.number, ".5"), (.dot, "."), (.formattedString, "f''"), (.closeBracket, "]"), (.kwIf, "if")]
    (∀ p ∈ pieces, IsSole p.1 p.2) ∧ ∃ found lineEnd textEnd,
      tokenize (" ".intercalate (pieces.map Prod.snd)) = .ok (found ++ [lineEnd, textEnd]) ∧
        found.map (fun t => (t.kind, t.text)) = pieces ∧ lineEnd.kind = .newline ∧
          textEnd.kind = .endOfFile := by
  intro pieces
  have hshapes : ∀ p ∈ pieces, ((tokenize p.2).toOption.map (List.map fun t => (t.kind, t.text))) =
      some [p, (.newline, ""), (.endOfFile, "")] := by decide +kernel
  have hsole : ∀ p ∈ pieces, IsSole p.1 p.2 := fun p hp => isSole_of_shapes (hshapes p hp)
  exact ⟨hsole, exists_tokenize_intercalate_of_sole (List.cons_ne_nil _ _) hsole⟩

end NoteCheck.Code
