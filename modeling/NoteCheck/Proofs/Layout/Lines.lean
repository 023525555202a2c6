/-
# Lines of words and their indentation

What is read of a text that consists of lines, each with an indentation and words. The marks are
those of the words, the end of each line, and before a line those of the blocks that its
indentation opens or closes. The main statements are `Marked.exists_reads`, for lines with more
text after them, and `Marked.exists_tokenize_eq`, for the lines of a whole text.
-/
import NoteCheck.Proofs.Layout.Structure
import NoteCheck.Proofs.Layout.Words

namespace NoteCheck.Code

/-! ## Marks -/

/-- A token without its columns: its kind, and of a token that stands for a piece of the text also
the piece and its line. -/
structure Mark where
  kind : TokenKind
  text : String
  line : Nat
  deriving DecidableEq, Repr

/-- A mark of layout, inside a block or at its end. -/
def Mark.layout (kind : TokenKind) : Mark := ⟨kind, "", 0⟩

/-- The mark of a token. -/
def Token.mark (t : Token) : Mark :=
  if t.kind.isLayout || t.kind == .endOfFile then .layout t.kind
  else ⟨t.kind, t.text, t.span.line⟩

@[simp] theorem Token.kind_mark (t : Token) : t.mark.kind = t.kind := by
  rw [mark]
  split <;> rfl

/-- A token that is no layout keeps its text and its line in its mark. -/
theorem Token.mark_eq {t : Token} (hlayout : t.kind.isLayout = false)
    (hend : t.kind ≠ .endOfFile) : t.mark = ⟨t.kind, t.text, t.span.line⟩ := by
  rw [mark, if_neg]
  simp [hlayout, hend]

/-- The number of open brackets after some marks. -/
def depthAfter (marks : List Mark) (depth : Nat) : Nat :=
  marks.foldl (fun depth mark => mark.kind.depthAfter depth) depth

@[simp] theorem depthAfter_nil (depth : Nat) : depthAfter [] depth = depth := rfl

@[simp] theorem depthAfter_cons (mark : Mark) (marks : List Mark) (depth : Nat) :
    depthAfter (mark :: marks) depth = depthAfter marks (mark.kind.depthAfter depth) := rfl

@[simp] theorem depthAfter_append (a b : List Mark) (depth : Nat) :
    depthAfter (a ++ b) depth = depthAfter b (depthAfter a depth) :=
  List.foldl_append

/-! ## Texts on one line -/

/-- Lines are counted by their line breaks. -/
theorem Position.line_advance_eq (p : Position) (text : List Char) :
    (p.advance text).line = p.line + text.count '\n' := by
  induction text generalizing p with
  | nil => rfl
  | cons c text ih =>
    rw [advance_cons, ih, next, List.count_cons]
    by_cases hc : c = '\n'
    · rw [if_pos hc, if_pos (beq_iff_eq.2 hc), Nat.add_right_comm, Nat.add_assoc]
    · rw [if_neg hc, if_neg (by rwa [beq_iff_eq])]
      rfl

/-- A text without a line break stays on its line. -/
theorem Position.line_advance (p : Position) {text : List Char} (h : '\n' ∉ text) :
    (p.advance text).line = p.line := by
  rw [line_advance_eq, List.count_eq_zero.2 h, Nat.add_zero]

/-- A text begins with words and gaps on one line, up to the given rest. -/
inductive Lexes (line : Nat) : List Char → List Mark → List Char → Prop
  | done {cs} : Lexes line cs [] cs
  | token {cs kind text mid marks rest} : Lexeme.next? cs = some (.token kind text, mid) →
      '\n' ∉ text → Lexes line mid marks rest →
      Lexes line cs (⟨kind, String.ofList text, line⟩ :: marks) rest
  | gap {cs text mid marks rest} : Lexeme.next? cs = some (.gap text, mid) → '\n' ∉ text →
      Lexes line mid marks rest → Lexes line cs marks rest

/-- A text that begins with words and gaps may go on with more of them. -/
theorem Lexes.trans {line : Nat} {cs mid rest : List Char} {marks more : List Mark}
    (h : Lexes line cs marks mid) (h' : Lexes line mid more rest) :
    Lexes line cs (marks ++ more) rest := by
  induction h with
  | done => exact h'
  | token hnext htext _ ih => exact .token hnext htext (ih h')
  | gap hnext htext _ ih => exact .gap hnext htext (ih h')

/-- A delimiter stands where it does whatever follows the text, as long as a delimiter follows an
empty one. -/
theorem Delimited.append {cs rest : List Char} (h : Delimited cs) (hrest : Delimited rest) :
    Delimited (cs ++ rest) := by
  cases h with
  | nil => exact hrest
  | _ => constructor

/-- A text begins with a word. -/
def BeginsWithWord (text : List Char) : Prop :=
  ∃ w kind rest, IsWord w kind ∧ text = w.toList ++ rest

/-- A text begins with a word whatever follows it. -/
theorem BeginsWithWord.append {text : List Char} (h : BeginsWithWord text) (more : List Char) :
    BeginsWithWord (text ++ more) := by
  obtain ⟨w, kind, rest, hw, rfl⟩ := h
  exact ⟨w, kind, rest ++ more, hw, List.append_assoc ..⟩

/-- A word with more text after it begins with a word. -/
theorem beginsWithWord_append {w : String} {kind : TokenKind} (hw : IsWord w kind)
    (rest : List Char) : BeginsWithWord (w.toList ++ rest) :=
  ⟨w, kind, rest, hw, rfl⟩

/-- A text that is read as the given words whatever delimiter follows it. -/
structure Spells (line : Nat) (text : List Char) (marks : List Mark) : Prop where
  lexes : ∀ {rest}, Delimited rest → Lexes line (text ++ rest) marks rest

namespace Spells

variable {line : Nat} {a b : List Char} {marks more : List Mark}

/-- An empty text has no words. -/
theorem nil : Spells line [] [] := ⟨fun _ => .done⟩

/-- A word is read up to a delimiter. -/
theorem word {w : String} {kind : TokenKind} (hw : IsWord w kind) (hline : '\n' ∉ w.toList) :
    Spells line w.toList [⟨kind, w, line⟩] where
  lexes := by
    intro rest hrest
    have h : Lexes line _ [⟨kind, String.ofList w.toList, line⟩] rest :=
      .token (hw.next?_append hrest) hline .done
    rwa [String.ofList_toList] at h

/-- Two texts are read one after the other if the second one begins with a delimiter. -/
theorem append (ha : Spells line a marks) (hb : Spells line b more) (hdelimited : Delimited b) :
    Spells line (a ++ b) (marks ++ more) where
  lexes := by
    intro rest hrest
    rw [List.append_assoc]
    exact (ha.lexes (hdelimited.append hrest)).trans (hb.lexes hrest)

/-- After an opening bracket anything may follow. -/
theorem openParen (hb : Spells line b more) :
    Spells line ('(' :: b) (⟨.openParen, "(", line⟩ :: more) where
  lexes := by
    intro rest hrest
    have hnext : Lexeme.next? ('(' :: (b ++ rest)) = some (.token .openParen ['('], b ++ rest) :=
      rfl
    exact .token hnext (by decide) (hb.lexes hrest)

/-- After an opening square bracket anything may follow. -/
theorem openBracket (hb : Spells line b more) :
    Spells line ('[' :: b) (⟨.openBracket, "[", line⟩ :: more) where
  lexes := by
    intro rest hrest
    have hnext : Lexeme.next? ('[' :: (b ++ rest)) = some (.token .openBracket ['['], b ++ rest) :=
      rfl
    exact .token hnext (by decide) (hb.lexes hrest)

/-- One blank before a word is passed over. -/
theorem blank (hb : Spells line b more) (hbegins : BeginsWithWord b) :
    Spells line (' ' :: b) more where
  lexes := by
    intro rest hrest
    obtain ⟨w, kind, cs, hw, rfl⟩ := hbegins
    have hgap : Lexeme.next? (' ' :: (w.toList ++ cs) ++ rest) =
        some (.gap [' '], w.toList ++ cs ++ rest) := by
      rw [List.cons_append, List.append_assoc]
      exact Lexeme.next?_blank (hw.isBlank_head_append (cs ++ rest))
    exact .gap hgap (by decide) (hb.lexes hrest)

/-- A reserved word or a mark, and what follows it. -/
theorem lookup {w : String} {kind : TokenKind} (hb : Spells line b more)
    (hw : (TokenKind.marks ++ TokenKind.reservedWords).lookup w = some kind)
    (hline : '\n' ∉ w.toList) (hdelimited : Delimited b) :
    Spells line (w.toList ++ b) (⟨kind, w, line⟩ :: more) :=
  (word (isWord_of_lookup hw) hline).append hb hdelimited

end Spells

/-! ## Readers inside a line -/

/-- The blocks that the indentation of a line opens or closes, and the ones that are open then. -/
inductive Enters : List Nat → Nat → List TokenKind → List Nat → Prop
  | opens {blocks width} : blocks.headD 0 < width → Enters blocks width [.indent] (width :: blocks)
  | closes {closed kept width} : (∀ b ∈ closed, width < b) → kept.headD 0 = width →
      Enters (closed ++ kept) width (List.replicate closed.length .dedent) kept

namespace Reader

/-- A reader at the beginning of a line, outside brackets. -/
def atLine (blocks : List Nat) (line : Nat) (rest : List Char) : Reader :=
  { rest, here := ⟨line, 1⟩, blocks }

/-- A reader inside a line. -/
def inside (blocks : List Nat) (here : Position) (depth : Nat) (between : Bool)
    (rest : List Char) : Reader :=
  { rest, here, depth, blocks, atLineStart := false, betweenLines := between }

variable {blocks : List Nat} {line depth : Nat} {between : Bool} {cs rest : List Char}
  {marks : List Mark}

/-- Reading on by some steps, and then to the end. -/
theorem Reads.tokens_eq {r last : Reader} {found : List Token} (h : r.Reads found last) :
    r.tokens = last.tokens.map (found ++ ·) := by
  induction h with
  | @refl r => cases r.tokens <;> rfl
  | @step r next last found more hne hstep _ ih =>
    rw [tokens_eq_of_step hne hstep, ih]
    cases last.tokens with
    | error e => rfl
    | ok tokens => exact congrArg Except.ok (List.append_assoc ..).symm

/-- A reader that has read on may read further on. -/
theorem Reads.trans {r s t : Reader} {found more : List Token} (h : r.Reads found s)
    (h' : s.Reads more t) : r.Reads (found ++ more) t := by
  induction h with
  | refl => exact h'
  | step hne hstep _ ih =>
    rw [List.append_assoc]
    exact .step hne hstep (ih h')

/-- One step reads on. -/
theorem Reads.single {r next : Reader} {found : List Token} (hne : r.rest ≠ [])
    (h : r.step = .ok (found, next)) : r.Reads found next := by
  have hreads := Reads.step hne h .refl
  rwa [List.append_nil] at hreads

/-- A lexeme begins where there is text left. -/
theorem ne_nil_of_next? {cs rest : List Char} {l : Lexeme} (h : Lexeme.next? cs = some (l, rest)) :
    cs ≠ [] := by
  obtain ⟨hne, hcs⟩ := Lexeme.next?_eq_some h
  rw [← hcs]
  exact List.append_ne_nil_of_left_ne_nil hne rest

/-- Words on one line are read one after the other. -/
theorem exists_reads_of_lexes (h : Lexes line cs marks rest) : ∀ (here : Position) (depth : Nat)
    (between : Bool), here.line = line → ∃ found stop, found.map Token.mark = marks ∧
      stop.line = line ∧ (inside blocks here depth between cs).Reads found
        (inside blocks stop (depthAfter marks depth) (between && marks.isEmpty) rest) := by
  -- no word holds a line break, so that the line stays the same
  induction h with
  | done =>
    intro here depth between hhere
    refine ⟨[], here, rfl, hhere, ?_⟩
    rw [depthAfter_nil, List.isEmpty_nil, Bool.and_true]
    exact .refl
  | @token cs kind text mid marks rest hnext htext _ ih =>
    intro here depth between hhere
    obtain ⟨found, stop, hfound, hstop, hreads⟩ := ih (here.advance text)
      (kind.depthAfter depth) false ((here.line_advance htext).trans hhere)
    have hstep := step_of_next? (r := inside blocks here depth between cs) rfl hnext
    refine ⟨_ ++ found, stop, ?_, hstop, .step (ne_nil_of_next? hnext) hstep ?_⟩
    · have hspan : ((inside blocks here depth between cs).spanOf kind text).line = line := by
        rw [spanOf]
        split <;> exact hhere
      rw [List.map_append, hfound]
      show Token.mark _ :: marks = _
      rw [Token.mark_eq (Lexeme.isLayout_of_next? hnext) (Lexeme.kind_ne_endOfFile hnext), hspan]
    · rw [List.isEmpty_cons, Bool.and_false]
      exact hreads
  | @gap cs text mid marks rest hnext htext _ ih =>
    intro here depth between hhere
    obtain ⟨found, stop, hfound, hstop, hreads⟩ := ih (here.advance text) depth between
      ((here.line_advance htext).trans hhere)
    have hstep := step_of_next? (r := inside blocks here depth between cs) rfl hnext
    exact ⟨found, stop, hfound, hstop, .step (ne_nil_of_next? hnext) hstep hreads⟩

/-- The end of a line outside brackets counts where a token has been read in the line. -/
theorem step_lineBreak {here : Position} :
    (inside blocks here 0 between ('\n' :: rest)).step =
      .ok (if between then [] else [⟨.newline, "\n", .ofText here []⟩],
        atLine blocks (here.line + 1) rest) := by
  rw [step_of_next? (r := inside blocks here 0 between ('\n' :: rest)) rfl
    (Lexeme.next?_lineBreak rest)]
  cases between <;> rfl

/-! ## Indentation -/

/-- A marker of layout has a mark without a text. -/
theorem mark_marker {kind : TokenKind} (hkind : kind.isLayout = true ∨ kind = .endOfFile)
    (r : Reader) : (r.marker kind).mark = .layout kind := by
  have hkind' : (r.marker kind).kind = kind := rfl
  rw [Token.mark, hkind', if_pos]
  simpa using hkind

/-- At the beginning of a line the blocks are opened and closed that its indentation asks for. -/
theorem exists_enterBlock_eq {width : Nat} {kinds : List TokenKind} {inner : List Nat}
    (h : Enters blocks width kinds inner) (here : Position) (rest : List Char) :
    ∃ found, found.map Token.mark = kinds.map Mark.layout ∧
      (inside blocks here 0 true rest).enterBlock width =
        .ok (found, inside inner here 0 kinds.isEmpty rest) := by
  cases h with
  | opens hwidth =>
    refine ⟨_, ?_, enterBlock_eq_ok.2 (.opens hwidth)⟩
    exact congrArg (· :: []) (mark_marker (.inl rfl) _)
  | @closes closed _ _ hclosed hkept =>
    -- the blocks that end are those indented further, and the next one is as far as the line
    have hstop : ∀ b ∈ inner.head?, ¬width < b := by
      cases inner with
      | nil => nofun
      | cons b kept =>
        intro c hc
        obtain rfl := Option.some.inj hc
        have hb : b = width := hkept
        omega
    have htake : (closed ++ inner).takeWhile (width < ·) = closed := by
      rw [List.takeWhile_append_of_pos (by simpa using hclosed)]
      cases inner with
      | nil => simp
      | cons b kept => simp [hstop b rfl]
    have hdrop : (closed ++ inner).dropWhile (width < ·) = inner := by
      rw [List.dropWhile_append_of_pos (by simpa using hclosed)]
      cases inner with
      | nil => rfl
      | cons b kept => simp [hstop b rfl]
    have hindent : ¬(closed ++ inner).headD 0 < width := by
      cases closed with
      | nil =>
        rw [List.nil_append, hkept]
        exact Nat.lt_irrefl width
      | cons b closed =>
        have hb := hclosed b List.mem_cons_self
        show ¬b < width
        omega
    refine ⟨closed.map fun _ => (inside (closed ++ inner) here 0 true rest).marker .dedent, ?_, ?_⟩
    · rw [List.map_map, List.map_replicate, ← List.map_const']
      exact List.map_congr_left fun _ _ => mark_marker (.inl rfl) _
    · rw [enterBlock, indentation, inside, if_neg hindent]
      dsimp only
      rw [htake, hdrop, if_pos hkept]
      cases closed <;> rfl

/-- Each blank counts as one in an indentation. -/
theorem indentWidth_replicate (n : Nat) : indentWidth (List.replicate n ' ') = n := by
  have hfold : ∀ width, (List.replicate n ' ').foldl (fun width c =>
      if c = '\t' then (width / 8 + 1) * 8 else if c = '\x0c' then 0 else width + 1) width =
      width + n := by
    induction n with
    | zero => exact fun _ => rfl
    | succ n ih =>
      intro width
      rw [List.replicate_succ, List.foldl_cons, ih]
      show width + 1 + n = _
      omega
  rw [indentWidth, hfold, Nat.zero_add]

/-- The indentation of a line is read up to something else. -/
theorem enterLine_atLine (blocks : List Nat) (line : Nat)
    (hrest : ∀ c ∈ rest.head?, isIndent c = false) (width : Nat) :
    ∃ here : Position, here.line = line ∧
      (atLine blocks line (List.replicate width ' ' ++ rest)).enterLine =
        if isBlankLine rest then .ok ([], inside blocks here 0 true rest)
        else (inside blocks here 0 true rest).enterBlock width := by
  have htake : (List.replicate width ' ' ++ rest).takeWhile isIndent =
      List.replicate width ' ' := by
    rw [List.takeWhile_append_of_pos fun c hc => by rw [List.eq_of_mem_replicate hc]; rfl]
    cases rest with
    | nil => simp
    | cons c rest => simp [hrest c rfl]
  have hdrop : (List.replicate width ' ' ++ rest).dropWhile isIndent = rest := by
    rw [List.dropWhile_append_of_pos fun c hc => by rw [List.eq_of_mem_replicate hc]; rfl]
    cases rest with
    | nil => rfl
    | cons c rest => simp [hrest c rfl]
  refine ⟨Position.advance ⟨line, 1⟩ (List.replicate width ' '), ?_, ?_⟩
  · exact Position.line_advance _ fun hmem => absurd (List.eq_of_mem_replicate hmem) (by decide)
  · show (atLine blocks line (List.replicate width ' ' ++ rest)).indent = _
    rw [indent, atLine]
    dsimp only
    rw [htake, hdrop, indentWidth_replicate]
    rfl

/-- Reading goes on after an indentation as inside the line. -/
theorem Reads.of_enterLine {r entered last : Reader} {layout found : List Token}
    (hline : r.enterLine = .ok (layout, entered)) (hstart : entered.atLineStart = false)
    (h : entered.Reads found last) (hne : last.rest ≠ entered.rest) :
    r.Reads (layout ++ found) last := by
  cases h with
  | refl => exact absurd rfl hne
  | @step _ next _ first more hrest hstep hmore =>
    have hfirst : r.step = .ok (layout ++ first, next) := by
      rw [step_of_enterLine hline hstart, hstep]
      rfl
    rw [← List.append_assoc]
    exact .step (ne_nil_of_enterLine hline hrest) hfirst hmore

end Reader

/-! ## Lines -/

/-- A line of a text, without the line break. -/
inductive Row where
  | blank (width : Nat)
  | words (width : Nat) (text : String)
  deriving DecidableEq, Repr

namespace Row

/-- The characters of a line. -/
def chars : Row → List Char
  | blank width => List.replicate width ' '
  | words width text => List.replicate width ' ' ++ text.toList

/-- The characters of lines, each with a line break after it. -/
def unlines (rows : List Row) : List Char := rows.flatMap fun row => row.chars ++ ['\n']

@[simp] theorem unlines_nil : unlines [] = [] := rfl

/-- The text of some lines begins with the first of them and its line break. -/
theorem unlines_cons (row : Row) (rows : List Row) (rest : List Char) :
    unlines (row :: rows) ++ rest = row.chars ++ '\n' :: (unlines rows ++ rest) := by
  simp [unlines]

/-- The first line of a text with lines, whose last line break may be missing. -/
theorem eq_of_unlines_cons {row : Row} {rows : List Row} {cs : List Char}
    (h : cs = unlines (row :: rows) ∨ cs ++ ['\n'] = unlines (row :: rows)) :
    (∃ rest, cs = row.chars ++ '\n' :: rest ∧
      (rest = unlines rows ∨ rest ++ ['\n'] = unlines rows)) ∨ cs = row.chars ∧ rows = [] := by
  have hcons : unlines (row :: rows) = row.chars ++ '\n' :: unlines rows := by simp [unlines]
  rw [hcons] at h
  obtain rfl | h := h
  · exact .inl ⟨_, rfl, .inl rfl⟩
  rcases List.eq_nil_or_concat rows with rfl | ⟨rows, last, rfl⟩
  · exact .inr ⟨List.append_cancel_right h, rfl⟩
  · refine .inl ⟨unlines rows ++ last.chars, ?_, .inr (by simp [unlines])⟩
    have hlast : cs ++ ['\n'] =
        row.chars ++ '\n' :: (unlines rows ++ last.chars) ++ ['\n'] := by
      rw [h]
      simp [unlines]
    exact List.append_cancel_right hlast

end Row

/-- A text that may stand on a line: it begins with a word, is read as the given words, and closes
the brackets that it opens. -/
structure FillsLine (line : Nat) (text : String) (marks : List Mark) : Prop where
  begins : BeginsWithWord text.toList
  spells : Spells line text.toList marks
  closed : depthAfter marks 0 = 0
  ne_nil : marks ≠ []

/-- The marks of lines that begin with some open blocks, and the blocks that are open after them. -/
inductive Marked : List Nat → Nat → List Row → List Mark → List Nat → Prop
  | nil {blocks line} : Marked blocks line [] [] blocks
  | blank {blocks line width rows marks last} : Marked blocks (line + 1) rows marks last →
      Marked blocks line (.blank width :: rows) marks last
  | words {blocks line width text kinds inner words rows marks last} :
      Enters blocks width kinds inner → FillsLine line text words →
      Marked inner (line + 1) rows marks last →
      Marked blocks line (.words width text :: rows)
        (kinds.map .layout ++ words ++ .layout .newline :: marks) last

/-- The marks with which a text ends: its blocks close. -/
def closingMarks (blocks : List Nat) : List Mark :=
  List.replicate blocks.length (.layout .dedent) ++ [.layout .endOfFile]

namespace Reader

variable {blocks inner last : List Nat} {line width : Nat} {kinds : List TokenKind}
  {words marks : List Mark} {rows : List Row} {text : String} {rest cs : List Char}

/-- At the end the last line ends, if it has begun, then the blocks, and then the text. -/
theorem mark_finish (r : Reader) : r.finish.map Token.mark =
    (if r.betweenLines then [] else [.layout .newline]) ++ closingMarks r.blocks := by
  have hblocks : (r.blocks.map fun _ => r.marker .dedent).map Token.mark =
      List.replicate r.blocks.length (.layout .dedent) := by
    rw [List.map_map, ← List.map_const']
    exact List.map_congr_left fun _ _ => mark_marker (.inl rfl) r
  rw [finish, List.map_append, List.map_append, hblocks, closingMarks, List.append_assoc,
    List.map_singleton, mark_marker (.inr rfl)]
  cases r.betweenLines with
  | true => rfl
  | false => exact congrArg (· :: _) (mark_marker (.inl rfl) r)

/-- A line of words is read up to the delimiter after it. -/
theorem exists_reads_of_fillsLine (henters : Enters blocks width kinds inner)
    (htext : FillsLine line text words) (hrest : Delimited rest) :
    ∃ found stop, found.map Token.mark = kinds.map .layout ++ words ∧ stop.line = line ∧
      (atLine blocks line ((Row.words width text).chars ++ rest)).Reads found
        (inside inner stop 0 false rest) := by
  obtain ⟨w, kind, more, hw, hmore⟩ := htext.begins
  obtain ⟨c, others, hc⟩ := List.exists_cons_of_ne_nil hw.ne_nil
  have hcs : text.toList ++ rest = c :: (others ++ (more ++ rest)) := by
    rw [hmore, hc]
    simp
  have hindent : ∀ c ∈ (text.toList ++ rest).head?, isIndent c = false := by
    rw [hcs]
    intro d hd
    obtain rfl := Option.some.inj hd
    have hblank := hw.isBlank_head hc
    rw [Gap.isBlank, Bool.or_eq_false_iff] at hblank
    exact hblank.1
  have hline : isBlankLine (text.toList ++ rest) = false := by
    have hhead := hw.head_ne hc
    have hblank := hw.isBlank_head hc
    rw [hcs]
    unfold isBlankLine
    split
    all_goals simp_all [Gap.isBlank]
  -- the indentation opens and closes the blocks, and the words are read inside the line
  obtain ⟨here, hhere, henter⟩ := enterLine_atLine blocks line hindent width
  obtain ⟨layout, hlayout, hblock⟩ := exists_enterBlock_eq henters here (text.toList ++ rest)
  obtain ⟨found, stop, hfound, hstop, hreads⟩ :=
    exists_reads_of_lexes (htext.spells.lexes hrest) here 0 kinds.isEmpty hhere
  rw [hline, hblock] at henter
  rw [htext.closed, List.isEmpty_eq_false_iff.2 htext.ne_nil, Bool.and_false] at hreads
  refine ⟨layout ++ found, stop, by rw [List.map_append, hlayout, hfound], hstop, ?_⟩
  rw [Row.chars, List.append_assoc]
  refine hreads.of_enterLine henter rfl fun hsame => ?_
  have hlength := congrArg List.length (hsame.trans hcs)
  simp only [inside, List.length_cons, List.length_append] at hlength
  omega

/-- A line of words is read with its line break. -/
theorem exists_reads_of_words (henters : Enters blocks width kinds inner)
    (htext : FillsLine line text words) (rest : List Char) :
    ∃ found, found.map Token.mark = kinds.map .layout ++ words ++ [.layout .newline] ∧
      (atLine blocks line ((Row.words width text).chars ++ '\n' :: rest)).Reads found
        (atLine inner (line + 1) rest) := by
  obtain ⟨found, stop, hfound, rfl, hreads⟩ :=
    exists_reads_of_fillsLine henters htext (show Delimited ('\n' :: rest) from .lineBreak)
  refine ⟨_, ?_, hreads.trans (.single (List.cons_ne_nil _ _) step_lineBreak)⟩
  rw [List.map_append, hfound]
  rfl

/-- A blank line is passed over with its line break. -/
theorem reads_blank (width : Nat) (rest : List Char) :
    (atLine blocks line ((Row.blank width).chars ++ '\n' :: rest)).Reads []
      (atLine blocks (line + 1) rest) := by
  have hrest : ∀ c ∈ ('\n' :: rest).head?, isIndent c = false := by
    rintro c ⟨⟩
    rfl
  obtain ⟨here, rfl, henter⟩ := enterLine_atLine blocks line hrest width
  have hbreak : (inside blocks here 0 true ('\n' :: rest)).Reads [] _ :=
    .single (List.cons_ne_nil _ _) step_lineBreak
  exact hbreak.of_enterLine henter rfl (by simp [atLine, inside])

/-- The blanks at the end of a text are passed over. -/
theorem reads_replicate (width : Nat) :
    ∃ last : Reader, (atLine blocks line (List.replicate width ' ')).Reads [] last ∧
      last.rest = [] ∧ last.blocks = blocks ∧ last.betweenLines = true := by
  cases width with
  | zero => exact ⟨_, .refl, rfl, rfl, rfl⟩
  | succ n =>
    have hrest : ∀ c ∈ ([] : List Char).head?, isIndent c = false := nofun
    obtain ⟨here, -, henter⟩ := enterLine_atLine blocks line hrest (n + 1)
    rw [List.append_nil] at henter
    have hstep : (atLine blocks line (List.replicate (n + 1) ' ')).step =
        .ok ([], inside blocks here 0 true []) :=
      Results.bind_eq_ok.2 ⟨_, henter, rfl⟩
    exact ⟨_, .single (List.cons_ne_nil _ _) hstep, rfl, rfl, rfl⟩

/-- What the marks come to when reading has come to the end of the text. -/
theorem Reads.exists_tokens_eq {r last : Reader} {found : List Token} (h : r.Reads found last)
    (hrest : last.rest = []) : ∃ tokens, r.tokens = .ok tokens ∧
      tokens.map Token.mark = found.map Token.mark ++
        ((if last.betweenLines then [] else [.layout .newline]) ++ closingMarks last.blocks) := by
  refine ⟨found ++ last.finish, ?_, by rw [List.map_append, mark_finish]⟩
  rw [h.tokens_eq, Reader.tokens, dif_pos hrest]
  rfl

end Reader

section

variable {blocks last : List Nat} {line : Nat} {rows : List Row} {marks : List Mark}

/-- Lines are read one after the other. -/
theorem Marked.exists_reads (h : Marked blocks line rows marks last) (rest : List Char) :
    ∃ found, found.map Token.mark = marks ∧
      (Reader.atLine blocks line (Row.unlines rows ++ rest)).Reads found
        (.atLine last (line + rows.length) rest) := by
  induction h with
  | nil => exact ⟨[], rfl, .refl⟩
  | @blank blocks line width rows marks last _ ih =>
    obtain ⟨found, hfound, hreads⟩ := ih
    refine ⟨found, hfound, ?_⟩
    rw [Row.unlines_cons, List.length_cons, ← Nat.succ_add_eq_add_succ]
    exact (Reader.reads_blank width _).trans hreads
  | @words blocks line width text kinds inner words rows marks last henters htext _ ih =>
    obtain ⟨found, hfound, hreads⟩ := ih
    obtain ⟨first, hfirst, hline⟩ :=
      Reader.exists_reads_of_words henters htext (Row.unlines rows ++ rest)
    refine ⟨first ++ found, by simp [hfirst, hfound], ?_⟩
    rw [Row.unlines_cons, List.length_cons, ← Nat.succ_add_eq_add_succ]
    exact hline.trans hreads

/-- The last line break of a text with lines may be missing. -/
theorem Marked.exists_tokens_eq (h : Marked blocks line rows marks last) : ∀ {cs : List Char},
    (cs = Row.unlines rows ∨ cs ++ ['\n'] = Row.unlines rows) →
      ∃ tokens, (Reader.atLine blocks line cs).tokens = .ok tokens ∧
        tokens.map Token.mark = marks ++ closingMarks last := by
  -- only the last of the lines can be the one without its line break
  induction h with
  | nil =>
    intro cs hcs
    obtain rfl | hcs := hcs
    · exact Reader.Reads.refl.exists_tokens_eq rfl
    · simp at hcs
  | @blank blocks line width rows marks last hrows ih =>
    intro cs hcs
    obtain ⟨rest, rfl, hrest⟩ | ⟨rfl, rfl⟩ := Row.eq_of_unlines_cons hcs
    · obtain ⟨tokens, htokens, hmarks⟩ := ih hrest
      refine ⟨tokens, ?_, hmarks⟩
      rw [(Reader.reads_blank width rest).tokens_eq, htokens]
      rfl
    · cases hrows
      obtain ⟨r, hreads, hrest, hblocks, hbetween⟩ := Reader.reads_replicate width
      obtain ⟨tokens, htokens, hmarks⟩ := hreads.exists_tokens_eq hrest
      exact ⟨tokens, htokens, by rw [hmarks, hblocks, hbetween]; rfl⟩
  | @words blocks line width text kinds inner words rows marks last henters htext hrows ih =>
    intro cs hcs
    obtain ⟨rest, rfl, hrest⟩ | ⟨rfl, rfl⟩ := Row.eq_of_unlines_cons hcs
    · obtain ⟨tokens, htokens, hmarks⟩ := ih hrest
      obtain ⟨first, hfirst, hline⟩ := Reader.exists_reads_of_words henters htext rest
      refine ⟨first ++ tokens, ?_, by simp [hfirst, hmarks]⟩
      rw [hline.tokens_eq, htokens]
      rfl
    · cases hrows
      obtain ⟨found, stop, hfound, -, hreads⟩ :=
        Reader.exists_reads_of_fillsLine henters htext .nil
      rw [List.append_nil] at hreads
      obtain ⟨tokens, htokens, hmarks⟩ := hreads.exists_tokens_eq rfl
      refine ⟨tokens, htokens, ?_⟩
      rw [hmarks, hfound, List.append_assoc _ _ (closingMarks _)]
      rfl

/-- The tokens of a text with lines, up to columns. -/
theorem Marked.exists_tokenize_eq (h : Marked [] 1 rows marks last) {code : String}
    (hcode : code.toList = Row.unlines rows ∨ code.toList ++ ['\n'] = Row.unlines rows) :
    ∃ tokens, tokenize code = .ok tokens ∧ tokens.map Token.mark = marks ++ closingMarks last :=
  h.exists_tokens_eq hcode

end

end NoteCheck.Code
