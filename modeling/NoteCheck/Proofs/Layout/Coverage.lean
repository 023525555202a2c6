/-
# Tokens cover the text

No text is lost, duplicated or misplaced on the way from a text to its tokens. The main statement,
`tokenize_covers`: the tokens stand for pieces of the text that follow each other, with fillers
between them and lines and columns counted in the text before them; and where reading stops at an
error, its place is counted in the same way.
-/
import NoteCheck.Proofs.Layout.EndOfText
import NoteCheck.Proofs.Layout.Places

namespace NoteCheck.Code

/-- A mark for the beginning or the end of an indented block. -/
def TokenKind.marksBlock : TokenKind → Bool
  | .indent | .dedent => true
  | _ => false

/-- The tokens that stand for pieces of the text. -/
def placed (tokens : List Token) : List Token := tokens.filter (!·.kind.marksBlock)

@[simp] theorem placed_append (a b : List Token) : placed (a ++ b) = placed a ++ placed b :=
  List.filter_append a b

/-- A token with the text of the piece in a place, on the line and in the column where the piece
begins. The end of a line is written without its carriage return. -/
structure Token.StandsFor (t : Token) (p : Place) : Prop where
  text : t.text = String.ofList p.piece ∨
    t.kind = .newline ∧ t.text = "\n" ∧ p.piece = ['\r', '\n']
  start : t.span.start = .after p.before

/-- The marks at the end of the tokens: the end of the last line, if it is not there yet, the ends
of blocks, and the end of the text. -/
def IsClosing (tokens : List Token) : Prop :=
  ∃ lineEnd n, (lineEnd = [] ∨ lineEnd = [TokenKind.newline]) ∧
    tokens.map (·.kind) = lineEnd ++ List.replicate n .dedent ++ [.endOfFile] ∧
    ∀ t ∈ tokens, t.text = ""

/-- What a text cannot be read on for: a character with which no lexeme begins, after a text, or an
indentation at the end of that text, of a line with tokens. -/
inductive Obstacle : List Char → List Char → SyntaxFault → Prop
  | quote {before c rest} : c = '"' ∨ c = '\'' → Lexeme.next? (c :: rest) = none →
      Obstacle before (c :: rest) .unterminatedString
  | character {before c rest} : ¬(c = '"' ∨ c = '\'') → Lexeme.next? (c :: rest) = none →
      Obstacle before (c :: rest) (.unrecognised c)
  | indentation {lines blanks rest} : (∀ c ∈ lines.getLast?, c = '\n') →
      (∀ c ∈ blanks, Reader.isIndent c = true) →
      (∀ c ∈ rest.head?, Reader.isIndent c = false) → Reader.isBlankLine rest = false →
      Obstacle (lines ++ blanks) rest .inconsistentIndentation

namespace Gap

/-- What indents a line is blank. -/
theorem isBlank_of_isIndent {c : Char} (h : Reader.isIndent c = true) : isBlank c = true := by
  rw [Reader.isIndent] at h
  rw [isBlank, h, Bool.true_or]

/-- A line ends with a line feed, which a carriage return may precede. -/
theorem of_lineBreak? {cs text rest : List Char} (h : lineBreak? cs = some (text, rest)) :
    text = ['\n'] ∨ text = ['\r', '\n'] := by
  unfold lineBreak? at h
  split at h
  · cases h
    exact .inr rfl
  · cases h
    exact .inl rfl
  · cases h

/-- A line that is continued leaves a gap. -/
theorem filler_of_continuation? {cs text rest : List Char}
    (h : continuation? cs = some (text, rest)) (after : List Char) : Filler after text := by
  unfold continuation? at h
  split at h
  · obtain ⟨⟨lineBreak, _⟩, hbreak, h⟩ := Option.map_eq_some_iff.1 h
    cases h
    have hjoint : Filler after ('\\' :: (lineBreak ++ [])) := .joint (of_lineBreak? hbreak) .nil
    rwa [List.append_nil] at hjoint
  · cases h

/-- Blanks leave a gap. -/
theorem filler_of_blanks? {cs text rest : List Char} (h : blanks? cs = some (text, rest))
    (after : List Char) : Filler after text := by
  unfold blanks? at h
  dsimp only at h
  split at h
  · cases h
  · cases h
    exact filler_of_isBlank fun c hc => List.mem_takeWhile_imp hc

/-- A comment is a number sign with the rest of its line. -/
theorem exists_of_comment? {cs text rest : List Char} (h : comment? cs = some (text, rest)) :
    ∃ note, text = '#' :: note ∧ (∀ c ∈ note, c ≠ '\n') ∧ ∀ c ∈ rest.head?, c = '\n' := by
  unfold comment? at h
  split at h
  · rename_i line
    cases h
    refine ⟨_, rfl, fun c hc => by simpa using List.mem_takeWhile_imp hc, fun c hc => ?_⟩
    have hhead := List.head?_dropWhile_not (· != '\n') line
    rw [show (line.dropWhile (· != '\n')).head? = some c from hc] at hhead
    simpa using hhead
  · cases h

/-- What separates tokens is a filler whatever follows it, or a comment up to the end of its line.
-/
theorem filler_or_comment_of_read? {cs text rest : List Char} (h : read? cs = some (text, rest)) :
    (∀ after, Filler after text) ∨
      ∃ note, text = '#' :: note ∧ (∀ c ∈ note, c ≠ '\n') ∧ ∀ c ∈ rest.head?, c = '\n' := by
  rcases Split.of_orElse h with h | h
  · exact .inl (filler_of_continuation? h)
  rcases Split.of_orElse h with h | h
  · exact .inl (filler_of_blanks? h)
  · exact .inr (exists_of_comment? h)

/-- What separates tokens is a filler before what follows it. -/
theorem filler_of_read? {cs text rest : List Char} (h : read? cs = some (text, rest)) :
    Filler rest text := by
  obtain hfiller | ⟨note, rfl, hnote, hrest⟩ := filler_or_comment_of_read? h
  · exact hfiller rest
  · have hcomment : Filler rest ('#' :: (note ++ [])) := .comment hnote hrest .nil
    rwa [List.append_nil] at hcomment

end Gap

/-! ## Reading on -/

/-- What a line break and a gap are made of. -/
theorem Lexeme.lineBreak_of_next? {cs text rest : List Char}
    (h : next? cs = some (lineBreak text, rest)) : text = ['\n'] ∨ text = ['\r', '\n'] := by
  unfold next? at h
  split at h
  · cases h
  split at h
  · cases h
  split at h
  · cases h
  split at h
  · rename_i hbreak
    cases h
    exact Gap.of_lineBreak? hbreak
  split at h
  · cases h
  · obtain ⟨_, -, h⟩ := Option.map_eq_some_iff.1 h
    cases h

/-- A lexeme without a token is read as a gap. -/
theorem Lexeme.read?_of_next? {cs text rest : List Char}
    (h : next? cs = some (gap text, rest)) : Gap.read? cs = some (text, rest) := by
  unfold next? at h
  split at h
  · cases h
  split at h
  · cases h
  split at h
  · cases h
  split at h
  · cases h
  split at h
  · rename_i hgap
    cases h
    exact hgap
  · obtain ⟨_, -, h⟩ := Option.map_eq_some_iff.1 h
    cases h

/-- A lexeme without a token fills a gap. -/
theorem Lexeme.filler_of_next? {cs text rest : List Char}
    (h : next? cs = some (gap text, rest)) : Filler rest text :=
  Gap.filler_of_read? (read?_of_next? h)

namespace Reader

/-- A reader that stands after a text. It looks at indentation where a line begins, and only there
and outside brackets. -/
structure At (r : Reader) (before : List Char) : Prop where
  here : r.here = .after before
  lineStart : r.atLineStart = true → r.depth = 0 ∧ ∀ c ∈ before.getLast?, c = '\n'

/-- A reader begins after no text. -/
theorem at_ofText (code : String) : (ofText code).At [] := ⟨rfl, fun _ => ⟨rfl, nofun⟩⟩

/-- A reader that stands after a text goes on over a piece of the rest, which the tokens that it
finds lay out. -/
structure Advances (r : Reader) (found : List Token) (next : Reader)
    (before piece : List Char) (places : List Place) : Prop where
  rest : r.rest = piece ++ next.rest
  stands : next.At (before ++ piece)
  laid : Laid next.rest before places piece
  reads : List.Forall₂ Token.StandsFor (placed found) places

/-- A reader that has gone on over a piece may go on over the next one. -/
theorem Advances.trans {r s t : Reader} {found more : List Token} {before a b : List Char}
    {places others : List Place} (h : r.Advances found s before a places)
    (h' : s.Advances more t (before ++ a) b others) :
    r.Advances (found ++ more) t before (a ++ b) (places ++ others) where
  rest := by rw [h.rest, h'.rest, List.append_assoc]
  stands := by
    rw [← List.append_assoc]
    exact h'.stands
  laid := by
    have hlaid := h.laid
    rw [h'.rest] at hlaid
    exact hlaid.append h'.laid
  reads := by
    rw [placed_append]
    exact List.rel_append h.reads h'.reads

/-- The place after a piece is the place after the text up to its end. -/
theorem At.past {r : Reader} {before : List Char} (h : r.At before) (piece : List Char) :
    r.here.advance piece = .after (before ++ piece) := by
  rw [h.here, ← Position.start_advance, ← Position.start_advance, Position.advance_append]

/-- The marks that are made where a line is entered stand for no text. -/
theorem placed_of_enterLine {r next : Reader} {found : List Token}
    (h : r.enterLine = .ok (found, next)) : placed found = [] := by
  refine List.filter_eq_nil_iff.2 fun t ht => ?_
  obtain rfl | rfl := eq_marker_of_enterLine h t ht <;> exact Bool.false_ne_true

/-- Indentation is a filler, and leads to the first lexeme of its line. -/
theorem advances_of_enterLine {r next : Reader} {found : List Token} {before : List Char}
    (hat : r.At before) (h : r.enterLine = .ok (found, next)) :
    next.atLineStart = false ∧ ∃ blanks, (∀ c ∈ blanks, isIndent c = true) ∧
      r.Advances found next before blanks [] := by
  have hplaced : List.Forall₂ Token.StandsFor (placed found) [] := by
    rw [placed_of_enterLine h]
    exact .nil
  obtain ⟨hwithin, -, rfl⟩ | ⟨-, -, hsame⟩ := (enterLine_eq_ok.1 h).eq_or_sameLine
  · have hline : next.atLineStart = false :=
      Bool.eq_false_iff.2 fun hstart => hwithin hstart (hat.lineStart hstart).1
    refine ⟨hline, [], nofun, rfl, ?_, .filler .nil, hplaced⟩
    rwa [List.append_nil]
  · have hblanks : ∀ c ∈ r.rest.takeWhile isIndent, isIndent c = true :=
      fun c hc => List.mem_takeWhile_imp hc
    refine ⟨hsame.atLineStart, _, hblanks, ?_, ⟨hsame.here.trans (hat.past _), ?_⟩, ?_, hplaced⟩
    · rw [hsame.rest]
      exact List.takeWhile_append_dropWhile.symm
    · rw [hsame.atLineStart]
      exact nofun
    · exact .filler (filler_of_isBlank fun c hc => Gap.isBlank_of_isIndent (hblanks c hc))

/-- The place after a lexeme that does not end a line, inside a line. -/
theorem At.inside {r next : Reader} {before : List Char} (hat : r.At before)
    (hline : r.atLineStart = false) (text : List Char) (hhere : next.here = r.here.advance text)
    (hnext : next.atLineStart = r.atLineStart) : next.At (before ++ text) where
  here := hhere.trans (hat.past text)
  lineStart := by
    rw [hnext, hline]
    exact nofun

/-- The place after the end of a line. -/
theorem At.lineBreak {r next : Reader} {before text : List Char} (hat : r.At before)
    (htext : text = ['\n'] ∨ text = ['\r', '\n']) (hhere : next.here = r.here.advance text)
    (hnext : next.atLineStart = (next.depth == 0)) : next.At (before ++ text) where
  here := hhere.trans (hat.past text)
  lineStart := by
    intro hstart
    rw [hnext] at hstart
    refine ⟨beq_iff_eq.1 hstart, fun c hc => ?_⟩
    obtain rfl | rfl := htext
    · rw [List.getLast?_concat] at hc
      exact (Option.some.inj hc).symm
    · rw [List.getLast?_append_of_ne_nil _ (List.cons_ne_nil _ _)] at hc
      exact (Option.some.inj hc).symm

/-- A lexeme is a token in its place, or a filler. -/
theorem advances_of_lexeme {r next : Reader} {found : List Token} {before : List Char}
    (hat : r.At before) (hline : r.atLineStart = false) (h : r.lexeme = .ok (found, next)) :
    ∃ piece places, r.Advances found next before piece places := by
  obtain ⟨l, rest, hnext, htake⟩ | ⟨-, rfl, rfl⟩ := lexeme_eq_ok.1 h
  · obtain ⟨hne, hrest⟩ := Lexeme.next?_eq_some hnext
    cases take_eq_iff.1 htake with
    -- a token is put down in its place
    | @token kind text =>
      have hmark : kind.marksBlock = false := Lexeme.kind_of_next?
        (p := fun kind => kind.marksBlock = false) rfl rfl rfl rfl (by decide) (by decide) hnext
      have hstart : (r.spanOf kind text).start = .after before := by
        unfold spanOf
        split <;> exact hat.here
      refine ⟨text, [⟨before, text⟩], hrest.symm, hat.inside hline text rfl rfl, .single hne, ?_⟩
      rw [placed, List.filter_singleton, hmark]
      exact .cons ⟨.inl rfl, hstart⟩ .nil
    | @lineEnd text hdepth =>
      have hbreak := Lexeme.lineBreak_of_next? hnext
      have hplace : (true : Bool) = (r.depth == 0) := (beq_iff_eq.2 hdepth).symm
      refine ⟨text, [⟨before, text⟩], hrest.symm, hat.lineBreak hbreak rfl hplace, .single hne, ?_⟩
      refine .cons ⟨?_, hat.here⟩ .nil
      obtain rfl | rfl := hbreak
      · exact .inl rfl
      · exact .inr ⟨rfl, rfl, rfl⟩
    -- line breaks and gaps without a token are fillers
    | @lineBreak text =>
      have hbreak := Lexeme.lineBreak_of_next? hnext
      refine ⟨text, [], hrest.symm, hat.lineBreak hbreak rfl rfl, .filler ?_, .nil⟩
      obtain rfl | rfl := hbreak
      · exact .lineBreak .nil
      · exact .blank rfl (.lineBreak .nil)
    | @gap text =>
      exact ⟨text, [], hrest.symm, hat.inside hline text rfl rfl,
        .filler (Lexeme.filler_of_next? hnext), .nil⟩
  · refine ⟨[], [], rfl, ?_, .filler .nil, .nil⟩
    rwa [List.append_nil]

/-- A step goes on over a piece of the text. -/
theorem advances_of_step {r next : Reader} {found : List Token} {before : List Char}
    (hat : r.At before) (h : r.step = .ok (found, next)) :
    ∃ piece places, r.Advances found next before piece places := by
  obtain ⟨layout, entered, taken, hline, hlexeme, rfl⟩ := step_eq_ok_iff.1 h
  obtain ⟨hstart, blanks, -, henter⟩ := advances_of_enterLine hat hline
  obtain ⟨piece, places, htake⟩ := advances_of_lexeme henter.stands hstart hlexeme
  exact ⟨_, _, henter.trans htake⟩

/-- Reading on by some steps, with the tokens found on the way. -/
inductive Reads : Reader → List Token → Reader → Prop
  | refl {r} : Reads r [] r
  | step {r next last found more} : r.rest ≠ [] → r.step = .ok (found, next) →
      Reads next more last → Reads r (found ++ more) last

/-- Reading on by some steps goes on over a piece of the text. -/
theorem Reads.advances {r last : Reader} {found : List Token} (h : r.Reads found last) :
    ∀ {before}, r.At before → ∃ piece places, r.Advances found last before piece places := by
  induction h with
  | @refl r =>
    intro before hat
    refine ⟨[], [], rfl, ?_, .filler .nil, .nil⟩
    rwa [List.append_nil]
  | step _ hstep _ ih =>
    intro before hat
    obtain ⟨piece, places, hfirst⟩ := advances_of_step hat hstep
    obtain ⟨piece', places', hrest⟩ := ih hfirst.stands
    exact ⟨_, _, hfirst.trans hrest⟩

/-- What comes of a text: the tokens on the way to its end and the marks there, or the error of a
step on the way. -/
theorem exists_reads (r : Reader) : ∃ found last, r.Reads found last ∧
    ((last.rest = [] ∧ r.tokens = .ok (found ++ last.finish)) ∨
      ∃ e, last.step = .error e ∧ r.tokens = .error e) := by
  induction r using Reader.tokens.induct with
  | case1 r hnil =>
    exact ⟨[], r, .refl, .inl ⟨hnil, tokens_of_rest_eq_nil hnil⟩⟩
  | case2 r hne e hstep =>
    exact ⟨[], r, .refl, .inr ⟨e, hstep, tokens_of_step_eq_error hne hstep⟩⟩
  | case3 r hne found next hstep ih =>
    obtain ⟨more, last, hreads, hend⟩ := ih
    refine ⟨found ++ more, last, .step hne hstep hreads, ?_⟩
    rw [tokens_eq_of_step hne hstep]
    obtain ⟨hnil, hok⟩ | ⟨e, herror, hfail⟩ := hend
    · refine .inl ⟨hnil, ?_⟩
      rw [hok, List.append_assoc]
      rfl
    · refine .inr ⟨e, herror, ?_⟩
      rw [hfail]
      rfl

/-- Reading ends with the marks at the end of the tokens. -/
theorem isClosing_finish (r : Reader) : IsClosing r.finish := by
  refine ⟨if r.betweenLines then [] else [.newline], r.blocks.length, ?_, ?_, ?_⟩
  · split
    · exact .inl rfl
    · exact .inr rfl
  · rw [finish, List.map_append, List.map_append, List.map_map, ← List.map_const']
    congr 2
    split <;> rfl
  · intro t ht
    rw [finish, List.mem_append, List.mem_append, List.mem_map] at ht
    obtain (ht | ⟨_, -, rfl⟩) | ht := ht
    · split at ht
      · cases ht
      · rw [List.mem_singleton.1 ht]
        rfl
    · rfl
    · rw [List.mem_singleton.1 ht]
      rfl

/-- Blocks that do not fit are an obstacle at the end of an indentation. -/
theorem obstacle_of_enterLine {r : Reader} {e : SyntaxError} {before : List Char}
    (hat : r.At before) (h : r.enterLine = .error e) : ∃ blanks rest, r.rest = blanks ++ rest ∧
      (∀ c ∈ blanks, isIndent c = true) ∧ Obstacle (before ++ blanks) rest e.fault ∧
        e.position = .after (before ++ blanks) := by
  obtain ⟨hstart, hblank, rfl⟩ := of_enterLine_eq_error h
  have hblanks : ∀ c ∈ r.rest.takeWhile isIndent, isIndent c = true :=
    fun c hc => List.mem_takeWhile_imp hc
  have hhead : ∀ c ∈ (r.rest.dropWhile isIndent).head?, isIndent c = false := by
    intro c hc
    have hnot := List.head?_dropWhile_not isIndent r.rest
    rw [hc] at hnot
    simpa using hnot
  exact ⟨_, _, List.takeWhile_append_dropWhile.symm, hblanks,
    .indentation (hat.lineStart hstart).2 hblanks hhead hblank, hat.past _⟩

/-- A character with which no lexeme begins is an obstacle. -/
theorem obstacle_of_lexeme {r : Reader} {e : SyntaxError} {before : List Char}
    (hat : r.At before) (h : r.lexeme = .error e) :
    Obstacle before r.rest e.fault ∧ e.position = .after before := by
  obtain ⟨c, rest, hrest, hnext, rfl⟩ := of_lexeme_eq_error h
  rw [hrest] at hnext ⊢
  refine ⟨?_, hat.here⟩
  dsimp only
  split_ifs with hquote
  · exact .quote hquote hnext
  · exact .character hquote hnext

/-- Where a step fails it has come upon an obstacle, after the indentation of its line, and tells
its place. -/
theorem obstacle_of_step {r : Reader} {e : SyntaxError} {before : List Char} (hat : r.At before)
    (h : r.step = .error e) : ∃ blanks rest, r.rest = blanks ++ rest ∧
      (∀ c ∈ blanks, isIndent c = true) ∧ Obstacle (before ++ blanks) rest e.fault ∧
        e.position = .after (before ++ blanks) := by
  obtain h | ⟨layout, entered, hline, h⟩ := step_eq_error_iff.1 h
  · exact obstacle_of_enterLine hat h
  · obtain ⟨-, blanks, hblanks, henter⟩ := advances_of_enterLine hat hline
    exact ⟨blanks, entered.rest, henter.rest, hblanks, obstacle_of_lexeme henter.stands h⟩

end Reader

/-- A text is covered by the tokens that are found in it, and the marks at its end close it. -/
def IsCovered (code : String) (tokens : List Token) : Prop :=
  ∃ found closing places, tokens = found ++ closing ∧ IsClosing closing ∧
    Laid [] [] places code.toList ∧ List.Forall₂ Token.StandsFor (placed found) places ∧
    (∀ p ∈ places, p.start < p.stop ∧ ∃ rest, code.toList = p.before ++ (p.piece ++ rest)) ∧
    places.Pairwise fun p q => p.stop ≤ q.start

/-- Reading stops in a text: a reader has come to a line or a lexeme that it cannot read on for, the
tokens that it has found cover the text before the obstacle, and the error tells its place. -/
def IsStopped (code : String) (e : SyntaxError) : Prop :=
  ∃ found last before blanks rest places, code.toList = before ++ rest ∧
    (Reader.ofText code).Reads found last ∧ last.step = .error e ∧ last.rest = blanks ++ rest ∧
    (∀ c ∈ blanks, Reader.isIndent c = true) ∧ Laid rest [] places before ∧
    List.Forall₂ Token.StandsFor (placed found) places ∧ Obstacle before rest e.fault ∧
    e.position = .after before

/-- The tokens of a code cover it. -/
theorem isCovered_of_tokenize {code : String} {tokens : List Token}
    (h : tokenize code = .ok tokens) : IsCovered code tokens := by
  obtain ⟨found, last, hreads, ⟨hnil, hok⟩ | ⟨e, -, hfail⟩⟩ := (Reader.ofText code).exists_reads
  · obtain rfl := Except.ok.inj (h.symm.trans hok)
    obtain ⟨piece, places, hadvances⟩ := hreads.advances (Reader.at_ofText code)
    have hcode : code.toList = piece ++ last.rest := hadvances.rest
    have hlaid := hadvances.laid
    rw [hnil, List.append_nil] at hcode
    rw [hnil, ← hcode] at hlaid
    exact ⟨found, last.finish, places, rfl, last.isClosing_finish, hlaid, hadvances.reads,
      fun p hp => (hlaid.of_mem p hp).2, hlaid.pairwise⟩
  · cases h.symm.trans hfail

/-- A code that is not read has what reading stopped at. -/
theorem isStopped_of_tokenize {code : String} {e : SyntaxError} (h : tokenize code = .error e) :
    IsStopped code e := by
  obtain ⟨found, last, hreads, ⟨-, hok⟩ | ⟨e', herror, hfail⟩⟩ := (Reader.ofText code).exists_reads
  · cases h.symm.trans hok
  · obtain rfl := Except.error.inj (h.symm.trans hfail)
    obtain ⟨piece, places, hadvances⟩ := hreads.advances (Reader.at_ofText code)
    have hcode : code.toList = piece ++ last.rest := hadvances.rest
    have hlaid := hadvances.laid
    obtain ⟨blanks, rest, hrest, hblanks, hobstacle, hposition⟩ :=
      Reader.obstacle_of_step hadvances.stands herror
    rw [hrest, ← List.append_assoc] at hcode
    rw [hrest] at hlaid
    have hindent : Laid rest piece [] blanks :=
      .filler (filler_of_isBlank fun c hc => Gap.isBlank_of_isIndent (hblanks c hc))
    have hcovered := hlaid.append hindent
    rw [List.append_nil] at hcovered
    exact ⟨found, last, piece ++ blanks, blanks, rest, places, hcode, hreads, herror, hrest,
      hblanks, hcovered, hadvances.reads, hobstacle, hposition⟩

/-- The tokens of a text cover it, and an error stands where reading has stopped. -/
theorem tokenize_covers (code : String) :
    match tokenize code with
    | .ok tokens => IsCovered code tokens
    | .error e => IsStopped code e := by
  cases h : tokenize code with
  | ok tokens => exact isCovered_of_tokenize h
  | error e => exact isStopped_of_tokenize h

end NoteCheck.Code
