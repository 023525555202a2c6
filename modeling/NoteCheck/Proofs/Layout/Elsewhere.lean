/-
# The same text elsewhere

What is read of a text does not depend on the place where it stands, nor on whether its last line
has a line break.
-/
import NoteCheck.Proofs.Layout.LastBreak
import NoteCheck.Proofs.Layout.Lines

namespace NoteCheck.Code

namespace Reader

/-- The same reader in another place, with more text after its own. -/
def elsewhere (r : Reader) (here : Position) (tail : List Char) : Reader :=
  { r with rest := r.rest ++ tail, here }

/-- A missing line break, or nothing. -/
def IsEnding (tail : List Char) : Prop := tail = [] ∨ tail = ['\n']

variable {r entered next : Reader} {here : Position} {tail : List Char} {found : List Token}

theorem IsEnding.run_append (htail : IsEnding tail) {p : Char → Bool} (hp : p '\n' = false)
    (cs : List Char) : Split.run p (cs ++ tail) = (Split.run p cs).followed tail := by
  obtain rfl | rfl := htail
  · rw [List.append_nil, Split.followed, List.append_nil]
  · exact Split.run_append_of_break hp cs []

theorem isBlankLine_append (htail : IsEnding tail) {cs : List Char} (hcs : cs ≠ ['\r']) :
    isBlankLine (cs ++ tail) = isBlankLine cs := by
  obtain rfl | rfl := htail
  · rw [List.append_nil]
  · match cs with
    | [] => rfl
    | [c] =>
      have hc : c ≠ '\r' := fun h => hcs (by rw [h])
      by_cases hbreak : c = '\n'
      · rw [hbreak]
        rfl
      · by_cases hcomment : c = '#'
        · rw [hcomment]
          rfl
        · simp [isBlankLine, hc, hbreak, hcomment]
    | c :: d :: rest =>
      rw [List.cons_append, List.cons_append]
      unfold isBlankLine
      split <;> simp_all

theorem map_shape_markers (r r' : Reader) (kind : TokenKind) (blocks : List Nat) :
    (blocks.map fun _ => r.marker kind).map Token.shape =
      (blocks.map fun _ => r'.marker kind).map Token.shape := by
  rw [List.map_map, List.map_map]
  rfl

theorem EntersBlock.elsewhere {width : Nat} (h : r.EntersBlock width found entered)
    (here : Position) (tail : List Char) :
    ∃ found', (r.elsewhere here tail).EntersBlock width found' (entered.elsewhere here tail) ∧
      found.map Token.shape = found'.map Token.shape := by
  cases h with
  | opens hwidth => exact ⟨_, .opens hwidth, rfl⟩
  | closes hwidth hblocks => exact ⟨_, .closes hwidth hblocks, map_shape_markers ..⟩

theorem pastIndent_elsewhere (htail : IsEnding tail) (here : Position) :
    ∃ here', (r.elsewhere here tail).pastIndent = r.pastIndent.elsewhere here' tail ∧
      (r.rest ++ tail).takeWhile isIndent = r.rest.takeWhile isIndent := by
  obtain ⟨htake, hdrop⟩ := Prod.mk.inj (htail.run_append (p := isIndent) rfl r.rest)
  have htake : (r.rest ++ tail).takeWhile isIndent = r.rest.takeWhile isIndent := htake
  refine ⟨here.advance (r.rest.takeWhile isIndent), ?_, htake⟩
  show Reader.mk ((r.rest ++ tail).dropWhile isIndent)
    (here.advance ((r.rest ++ tail).takeWhile isIndent)) _ _ _ _ = _
  rw [hdrop, htake]
  rfl

/-- A line is entered alike, if what follows its indentation is no carriage return at the end. -/
theorem enterLine_elsewhere (htail : IsEnding tail) (h : r.enterLine = .ok (found, entered))
    (hreturn : r.atLineStart = true → r.pastIndent.rest ≠ ['\r']) (here : Position) :
    ∃ found' here', (r.elsewhere here tail).enterLine = .ok (found', entered.elsewhere here' tail) ∧
      found.map Token.shape = found'.map Token.shape := by
  obtain ⟨here', hpast, htake⟩ := pastIndent_elsewhere (r := r) htail here
  have hblank (hstart : r.atLineStart = true) :
      isBlankLine (r.elsewhere here tail).pastIndent.rest = isBlankLine r.pastIndent.rest := by
    rw [hpast]
    exact isBlankLine_append htail (hreturn hstart)
  simp only [enterLine_eq_ok] at h ⊢
  cases h with
  | within hwithin => exact ⟨[], here, .within hwithin, rfl⟩
  | blank hstart hdepth hline =>
    refine ⟨[], here', ?_, rfl⟩
    rw [← hpast]
    exact .blank hstart hdepth ((hblank hstart).trans hline)
  | block hstart hdepth hline hblock =>
    obtain ⟨found', hfound', hshapes⟩ := hblock.elsewhere here' tail
    refine ⟨found', here', .block hstart hdepth ((hblank hstart).trans hline) ?_, hshapes⟩
    show (r.elsewhere here tail).pastIndent.EntersBlock
      (indentWidth ((r.rest ++ tail).takeWhile isIndent)) _ _
    rwa [hpast, htake]

/-! ## Lexemes -/

/-- A lexeme is taken up alike. -/
theorem take_elsewhere {l : Lexeme} {rest : List Char} (h : r.take l rest = (found, next))
    (here : Position) (tail : List Char) : ∃ found' here',
      (r.elsewhere here tail).take l (rest ++ tail) = (found', next.elsewhere here' tail) ∧
        found.map Token.shape = found'.map Token.shape := by
  simp only [take_eq_iff] at h ⊢
  cases h with
  | token => exact ⟨_, here.advance _, .token, rfl⟩
  | lineEnd hdepth hbetween => exact ⟨_, here.advance _, .lineEnd hdepth hbetween, rfl⟩
  | lineBreak hstays => exact ⟨_, here.advance _, .lineBreak hstays, rfl⟩
  | gap => exact ⟨_, here.advance _, .gap, rfl⟩

/-- Nothing, or a carriage return that the end of the line after it takes up. -/
def IsEnd (cs : List Char) : Prop := cs = [] ∨ cs = ['\r']

/-- A lexeme is read alike, before the end of the text. -/
theorem lexeme_elsewhere (htail : IsEnding tail) (h : r.lexeme = .ok (found, next))
    (hrest : ¬IsEnd r.rest) (here : Position) :
    ∃ found' here', (r.elsewhere here tail).lexeme = .ok (found', next.elsewhere here' tail) ∧
      found.map Token.shape = found'.map Token.shape := by
  rw [IsEnd, not_or] at hrest
  obtain ⟨l, rest, hnext, htake⟩ | ⟨hnil, -⟩ := lexeme_eq_ok.1 h
  · have hnext' : Lexeme.next? (r.elsewhere here tail).rest = some (l, rest ++ tail) := by
      obtain rfl | rfl := htail
      · rw [List.append_nil]
        exact (congrArg Lexeme.next? (List.append_nil r.rest)).trans hnext
      · exact Lexeme.next?_append_lineBreak hnext hrest.2
    obtain ⟨found', here', htake', hshapes⟩ := take_elsewhere htake here tail
    exact ⟨found', here', by rw [lexeme_of_next? hnext', htake'], hshapes⟩
  · exact absurd hnil hrest.1

/-- The marks at the end depend only on the open blocks and on whether a line is open. -/
theorem map_shape_finish {a b : Reader} (hblocks : a.blocks = b.blocks)
    (hbetween : a.betweenLines = b.betweenLines) :
    a.finish.map Token.shape = b.finish.map Token.shape := by
  rw [finish, finish, hblocks, hbetween]
  simp only [List.map_append, map_shape_markers a b]
  cases b.betweenLines <;> rfl

/-- The end of a line before the end of the text changes nothing. -/
theorem map_shape_lineBreak (r : Reader) (text rest : List Char) :
    ((r.take (.lineBreak text) rest).1 ++
      (r.take (.lineBreak text) rest).2.finish).map Token.shape =
      r.finish.map Token.shape := by
  obtain ⟨cs, here, depth, blocks, atLineStart, between⟩ := r
  cases depth with
  | succ => exact map_shape_finish rfl rfl
  | zero =>
    cases between with
    | true => exact map_shape_finish rfl rfl
    | false =>
      have hopen := map_shape_finish (a := (take ⟨cs, here, 0, blocks, atLineStart, false⟩
        (.lineBreak text) rest).2) (b := ⟨cs, here, 0, blocks, atLineStart, true⟩) rfl rfl
      exact congrArg (List.cons _) hopen

/-- What is left at the end of a text comes to the end of the line and of the text. -/
theorem exists_lexeme_of_isEnd (htail : IsEnding tail) (hrest : IsEnd r.rest) (here : Position) :
    ∃ found last, (r.elsewhere here tail).lexeme = .ok (found, last) ∧ last.rest = [] ∧
      (found ++ last.finish).map Token.shape = r.finish.map Token.shape := by
  have hbreak {text : List Char}
      (hnext : Lexeme.next? (r.elsewhere here tail).rest = some (.lineBreak text, [])) :
      ∃ found last, (r.elsewhere here tail).lexeme = .ok (found, last) ∧ last.rest = [] ∧
        (found ++ last.finish).map Token.shape = r.finish.map Token.shape := by
    let taken := (r.elsewhere here tail).take (.lineBreak text) []
    refine ⟨taken.1, taken.2, lexeme_of_next? hnext, rest_take _ _ _, ?_⟩
    exact (map_shape_lineBreak _ text []).trans (map_shape_finish rfl rfl)
  have hrest' : (r.elsewhere here tail).rest = r.rest ++ tail := rfl
  obtain rfl | rfl := htail
  · rw [List.append_nil] at hrest'
    obtain hrest | hrest := hrest
    · refine ⟨[], r.elsewhere here [], ?_, hrest'.trans hrest, map_shape_finish rfl rfl⟩
      rw [lexeme, hrest', hrest]
      rfl
    · have hnext : Lexeme.next? (r.elsewhere here []).rest = some (.gap ['\r'], []) := by
        rw [hrest', hrest]
        rfl
      exact ⟨[], _, lexeme_of_next? hnext, rfl, map_shape_finish rfl rfl⟩
  · obtain hrest | hrest := hrest
    · exact hbreak (by rw [hrest', hrest]; rfl)
    · exact hbreak (by rw [hrest', hrest]; rfl)

/-! ## Whole texts -/

/-- No line after the first one is made of indentation and a carriage return at the end of the
text. -/
def LaterUnreturned (cs : List Char) : Prop :=
  ∀ before line, cs = before ++ line → before.getLast? = some '\n' →
    line.dropWhile isIndent ≠ ['\r']

theorem LaterUnreturned.of_append {before cs : List Char} (h : LaterUnreturned (before ++ cs)) :
    LaterUnreturned cs := by
  intro first line hcs hlast
  refine h (before ++ first) line (by rw [hcs, List.append_assoc]) ?_
  rw [List.getLast?_append, hlast]
  rfl

/-- No line that is still to be read is made of indentation and a carriage return at the end of the
text. -/
structure Unreturned (r : Reader) : Prop where
  here : r.atLineStart = true → r.depth = 0 ∧ r.pastIndent.rest ≠ ['\r']
  later : LaterUnreturned r.rest

theorem Unreturned.enterLine (hr : r.Unreturned) (h : r.enterLine = .ok (found, entered)) :
    entered.atLineStart = false ∧ ∃ blanks, r.rest = blanks ++ entered.rest := by
  obtain ⟨hwithin, -, rfl⟩ | ⟨-, -, hsame⟩ := (enterLine_eq_ok.1 h).eq_or_sameLine
  · exact ⟨Bool.eq_false_iff.2 fun hstart => hwithin hstart (hr.here hstart).1, [], rfl⟩
  · refine ⟨hsame.atLineStart, r.rest.takeWhile isIndent, ?_⟩
    rw [hsame.rest]
    exact List.takeWhile_append_dropWhile.symm

theorem Unreturned.step (hr : r.Unreturned) (h : r.enterLine = .ok (found, entered))
    {taken : List Token} (h' : entered.lexeme = .ok (taken, next)) : next.Unreturned := by
  obtain ⟨hstart, blanks, hblanks⟩ := hr.enterLine h
  have hlater : LaterUnreturned entered.rest := .of_append (hblanks ▸ hr.later)
  obtain ⟨l, rest, hnext, htake⟩ | ⟨-, -, rfl⟩ := lexeme_eq_ok.1 h'
  · have htext := (Lexeme.next?_eq_some hnext).2
    have hlater' : LaterUnreturned rest := .of_append (htext.symm ▸ hlater)
    -- only after a line break does a line begin, and then outside brackets
    have hbreak {text : List Char} (hl : l = .lineBreak text) :
        rest.dropWhile isIndent ≠ ['\r'] := by
      subst hl
      refine hlater text rest htext.symm ?_
      obtain rfl | rfl := Lexeme.lineBreak_of_next? hnext <;> rfl
    cases take_eq_iff.1 htake with
    | token | gap => exact ⟨fun hnew => absurd (hstart.symm.trans hnew) Bool.false_ne_true, hlater'⟩
    | lineEnd hdepth => exact ⟨fun _ => ⟨hdepth, hbreak rfl⟩, hlater'⟩
    | lineBreak => exact ⟨fun hnew => ⟨beq_iff_eq.1 hnew, hbreak rfl⟩, hlater'⟩
  · exact ⟨fun hnew => absurd (hstart.symm.trans hnew) Bool.false_ne_true, hlater⟩

/-- The end of a text is read alike. -/
theorem exists_tokens_of_isEnd (htail : IsEnding tail) {layout : List Token} (hr : r.Unreturned)
    (hline : r.enterLine = .ok (layout, entered)) (hrest : IsEnd entered.rest) (here : Position)
    (hne : r.rest ++ tail ≠ []) : ∃ tokens, (r.elsewhere here tail).tokens = .ok tokens ∧
      tokens.map Token.shape = (layout ++ entered.finish).map Token.shape := by
  obtain ⟨layout', here', hline', hlayout⟩ :=
    enterLine_elsewhere htail hline (fun h => (hr.here h).2) here
  obtain ⟨taken, last, hlexeme, hlast, hshapes⟩ := exists_lexeme_of_isEnd htail hrest here'
  refine ⟨layout' ++ taken ++ last.finish, ?_, ?_⟩
  · rw [tokens_eq_of_step hne (step_eq_ok hline' hlexeme), tokens_of_rest_eq_nil hlast]
    rfl
  · rw [List.append_assoc, List.map_append, hshapes, List.map_append, hlayout]

/-- At the end of the text there is no indentation to read. -/
theorem enterLine_of_rest_eq_nil (h : r.rest = []) : ∃ entered, r.enterLine = .ok ([], entered) ∧
    entered.rest = [] ∧ entered.blocks = r.blocks ∧ entered.betweenLines = r.betweenLines := by
  by_cases hwithin : r.atLineStart = true → r.depth ≠ 0
  · exact ⟨r, enterLine_eq_ok.2 (.within hwithin), h, rfl, rfl⟩
  · rw [Classical.not_imp, not_not] at hwithin
    have hrest : r.pastIndent.rest = [] := by
      show r.rest.dropWhile isIndent = []
      rw [h]
      rfl
    refine ⟨r.pastIndent, enterLine_eq_ok.2 (.blank hwithin.1 hwithin.2 ?_), hrest, rfl, rfl⟩
    rw [hrest]
    rfl

theorem elsewhere_self (r : Reader) : r.elsewhere r.here [] = r := by
  rw [elsewhere, List.append_nil]

/-- What is read of a text is read of it elsewhere, and with a line break after it. -/
theorem exists_tokens_elsewhere (htail : IsEnding tail) {tokens : List Token}
    (h : r.tokens = .ok tokens) (hr : r.Unreturned) (here : Position) :
    ∃ tokens', (r.elsewhere here tail).tokens = .ok tokens' ∧
      tokens'.map Token.shape = tokens.map Token.shape := by
  induction r using Reader.tokens.induct generalizing tokens here with
  | case1 r hnil =>
    rw [tokens_of_rest_eq_nil hnil] at h
    obtain rfl := Except.ok.inj h
    by_cases hne : r.rest ++ tail = []
    · exact ⟨_, tokens_of_rest_eq_nil hne, map_shape_finish rfl rfl⟩
    · obtain ⟨entered, hline, hrest, hblocks, hbetween⟩ := enterLine_of_rest_eq_nil hnil
      obtain ⟨tokens', htokens', hshapes⟩ :=
        exists_tokens_of_isEnd htail hr hline (.inl hrest) here hne
      exact ⟨tokens', htokens', hshapes.trans (map_shape_finish hblocks hbetween)⟩
  | case2 r hne e hstep => cases (tokens_of_step_eq_error hne hstep).symm.trans h
  | case3 r hne found next hstep ih =>
    rw [tokens_eq_of_step hne hstep] at h
    obtain ⟨others, hnext, rfl⟩ := Results.map_eq_ok.1 h
    obtain ⟨layout, entered, taken, hline, hlexeme, rfl⟩ := step_eq_ok_iff.1 hstep
    -- at the end of the text the added line break meets what ends the line anyway
    by_cases hrest : IsEnd entered.rest
    · obtain ⟨tokens', htokens', hshapes'⟩ := exists_tokens_of_isEnd htail hr hline hrest here
        (List.append_ne_nil_of_left_ne_nil hne tail)
      refine ⟨tokens', htokens', ?_⟩
      obtain ⟨taken', last, hlexeme', hlast, hshapes⟩ :=
        exists_lexeme_of_isEnd (show IsEnding [] from .inl rfl) hrest entered.here
      rw [elsewhere_self, hlexeme] at hlexeme'
      obtain ⟨rfl, rfl⟩ := Prod.mk.inj (Except.ok.inj hlexeme')
      rw [tokens_of_rest_eq_nil hlast] at hnext
      obtain rfl := Except.ok.inj hnext
      rw [hshapes', List.map_append, ← hshapes, ← List.map_append, List.append_assoc]
    · obtain ⟨layout', here', hline', hlayout⟩ :=
        enterLine_elsewhere htail hline (fun h => (hr.here h).2) here
      obtain ⟨taken', here'', hlexeme', htaken⟩ := lexeme_elsewhere htail hlexeme hrest here'
      obtain ⟨others', hothers', hshapes⟩ := ih hnext (hr.step hline hlexeme) here''
      refine ⟨layout' ++ taken' ++ others', ?_, ?_⟩
      · have hne' : (r.elsewhere here tail).rest ≠ [] := List.append_ne_nil_of_left_ne_nil hne tail
        rw [tokens_eq_of_step hne' (step_eq_ok hline' hlexeme'), hothers']
        rfl
      · simp only [List.map_append, hlayout, htaken, hshapes]

end Reader

end NoteCheck.Code
