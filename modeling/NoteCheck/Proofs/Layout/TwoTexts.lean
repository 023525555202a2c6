/-
# One text after another

A text that is read up to the beginning of a line can be cut there: what has been found is what is
found of the first part by itself, before its end. The main statement is `tokenize_of_reads`.
-/
import NoteCheck.Proofs.Layout.Cut
import NoteCheck.Proofs.Layout.Elsewhere

namespace NoteCheck.Code

namespace Reader

variable {r entered next last : Reader} {cs rest more : List Char} {found layout taken : List Token}

/-- The same reader with another text left. -/
def leaving (r : Reader) (rest : List Char) : Reader := { r with rest }

/-- Whether a line is blank is seen from its first characters. -/
theorem isBlankLine_append_eq (hne : cs ≠ []) (hreturn : cs ≠ ['\r']) (a b : List Char) :
    isBlankLine (cs ++ a) = isBlankLine (cs ++ b) := by
  match cs with
  | [c] =>
    have hc : c ≠ '\r' := fun h => hreturn (by rw [h])
    rw [List.singleton_append, List.singleton_append]
    unfold isBlankLine
    split <;> simp_all
  | c :: d :: others =>
    simp only [List.cons_append]
    unfold isBlankLine
    split <;> simp_all

theorem EntersBlock.leaving {width : Nat} (h : r.EntersBlock width found entered)
    (rest : List Char) : (r.leaving rest).EntersBlock width found (entered.leaving rest) := by
  cases h with
  | opens hwidth => exact .opens hwidth
  | closes hwidth hblocks => exact .closes hwidth hblocks

/-- An indentation is what stands before the rest of its line, whatever follows that. -/
theorem pastIndent_leaving {left a : List Char} (hrest : r.rest = cs ++ a)
    (hpast : r.pastIndent.rest = left ++ a) (hne : left ≠ []) (b : List Char) :
    (r.leaving (cs ++ b)).pastIndent = r.pastIndent.leaving (left ++ b) ∧
      (cs ++ b).takeWhile isIndent = r.rest.takeWhile isIndent := by
  have hdrop : r.rest.dropWhile isIndent = left ++ a := hpast
  have hindent : ∀ c ∈ r.rest.takeWhile isIndent, isIndent c = true :=
    fun c hc => List.mem_takeWhile_imp hc
  have hcs : cs = r.rest.takeWhile isIndent ++ left := by
    have hwhole := List.takeWhile_append_dropWhile (p := isIndent) (l := r.rest)
    rw [hdrop, ← List.append_assoc] at hwhole
    exact (List.append_cancel_right (hwhole.trans hrest)).symm
  obtain ⟨c, others, rfl⟩ := List.exists_cons_of_ne_nil hne
  have hc : isIndent c = false := by
    have hhead := List.head?_dropWhile_not isIndent r.rest
    rw [hdrop] at hhead
    simpa using hhead
  have htake' : (cs ++ b).takeWhile isIndent = r.rest.takeWhile isIndent := by
    rw [hcs, List.append_assoc, List.takeWhile_append_of_pos hindent, List.cons_append,
      List.takeWhile_cons_of_neg (by simp [hc]), List.append_nil]
  have hdrop' : (cs ++ b).dropWhile isIndent = c :: others ++ b := by
    rw [hcs, List.append_assoc, List.dropWhile_append_of_pos hindent, List.cons_append,
      List.dropWhile_cons_of_neg (by simp [hc])]
  refine ⟨?_, htake'⟩
  show Reader.mk ((cs ++ b).dropWhile isIndent) (r.here.advance ((cs ++ b).takeWhile isIndent))
    _ _ _ _ = _
  rw [htake', hdrop']
  rfl

/-- The indentation of a line is read alike, whatever follows the line. -/
theorem enterLine_leaving {left a b : List Char} (h : r.enterLine = .ok (layout, entered))
    (hrest : r.rest = cs ++ a) (hleft : entered.rest = left ++ a) (hne : left ≠ [])
    (hblank : isBlankLine (left ++ a) = isBlankLine (left ++ b)) :
    (r.leaving (cs ++ b)).enterLine = .ok (layout, entered.leaving (left ++ b)) := by
  have hsame (hpast : r.pastIndent.rest = left ++ a) :
      isBlankLine (r.pastIndent.leaving (left ++ b)).rest = isBlankLine r.pastIndent.rest := by
    rw [hpast]
    exact hblank.symm
  simp only [enterLine_eq_ok] at h ⊢
  cases h with
  | within hwithin =>
    obtain rfl : cs = left := List.append_cancel_right (hrest.symm.trans hleft)
    exact .within hwithin
  | blank hstart hdepth hline =>
    obtain ⟨hpast, -⟩ := pastIndent_leaving hrest hleft hne b
    rw [← hpast]
    exact .blank hstart hdepth (by rw [hpast, hsame hleft, hline])
  | block hstart hdepth hline hblock =>
    have hpastRest : r.pastIndent.rest = left ++ a := hblock.sameLine.rest.symm.trans hleft
    obtain ⟨hpast, htake⟩ := pastIndent_leaving hrest hpastRest hne b
    refine .block hstart hdepth (by rw [hpast, hsame hpastRest, hline]) ?_
    show (r.leaving (cs ++ b)).pastIndent.EntersBlock
      (indentWidth ((cs ++ b).takeWhile isIndent)) _ _
    rw [hpast, htake]
    exact hblock.leaving _

theorem take_leaving {l : Lexeme} (h : r.take l rest = (taken, next)) (cs rest' : List Char) :
    (r.leaving cs).take l rest' = (taken, next.leaving rest') := by
  simp only [take_eq_iff] at h ⊢
  cases h with
  | token => exact .token
  | lineEnd hdepth hbetween => exact .lineEnd hdepth hbetween
  | lineBreak hstays => exact .lineBreak hstays
  | gap => exact .gap

/-- What a step does: it reads the indentation of a line, if there is one, and then a lexeme, if
there is text left. -/
theorem exists_of_step (h : r.step = .ok (found, next)) : ∃ layout entered,
    r.enterLine = .ok (layout, entered) ∧
      ((entered.rest = [] ∧ found = layout ∧ next = entered) ∨
        ∃ l, Lexeme.next? entered.rest = some (l, next.rest) ∧
          found = layout ++ (entered.take l next.rest).1 ∧
            next = (entered.take l next.rest).2) := by
  obtain ⟨layout, entered, taken, hline, hlexeme, rfl⟩ := step_eq_ok_iff.1 h
  refine ⟨layout, entered, hline, ?_⟩
  obtain ⟨l, rest, hread, htake⟩ | ⟨hnil, rfl, rfl⟩ := lexeme_eq_ok.1 hlexeme
  · obtain rfl : next.rest = rest := by rw [← rest_take entered l rest, htake]
    refine .inr ⟨l, hread, ?_⟩
    rw [htake]
    exact ⟨rfl, rfl⟩
  · exact .inl ⟨hnil, List.append_nil layout, rfl⟩

/-! ## Runs -/

/-- A step whose lexeme is read alike is made alike, whatever follows the lexeme. -/
theorem step_leaving {l : Lexeme} {left a b : List Char}
    (hline : r.enterLine = .ok (layout, entered)) (hrest : r.rest = cs ++ a)
    (hleft : entered.rest = left ++ a) (hblank : isBlankLine (left ++ a) = isBlankLine (left ++ b))
    (hread : Lexeme.next? (left ++ b) = some (l, rest ++ b)) (hne : left ≠ []) :
    (r.leaving (cs ++ b)).step = .ok (layout ++ (entered.take l (rest ++ a)).1,
      (entered.take l (rest ++ a)).2.leaving (rest ++ b)) := by
  refine step_eq_ok (enterLine_leaving hline hrest hleft hne hblank) ?_
  have htake : entered.take l (rest ++ a) =
      ((entered.take l (rest ++ a)).1, (entered.take l (rest ++ a)).2) := rfl
  exact (lexeme_of_next? hread).trans (congrArg Except.ok (take_leaving htake _ _))

/-- A step in a text with more after it takes the indentation of a line and a lexeme from that text.
-/
theorem exists_of_step_append {before : List Char} (hat : r.At before)
    (h : r.step = .ok (found, next)) (hrest : r.rest = cs ++ more)
    (hnext : next.rest = rest ++ more) :
    ∃ layout entered blanks left, r.enterLine = .ok (layout, entered) ∧
      entered.atLineStart = false ∧ cs = blanks ++ left ∧ (∀ c ∈ blanks, isIndent c = true) ∧
      entered.rest = left ++ more ∧
      ((left ++ more = [] ∧ found = layout ∧ next = entered) ∨
        ∃ l, Lexeme.next? (left ++ more) = some (l, rest ++ more) ∧
          found = layout ++ (entered.take l (rest ++ more)).1 ∧
          next = (entered.take l (rest ++ more)).2) := by
  obtain ⟨layout, entered, hline, hlexeme⟩ := exists_of_step h
  obtain ⟨hstart, blanks, hblanks, hentered⟩ := advances_of_enterLine hat hline
  -- what is left after the indentation is a part of the text, too
  obtain ⟨left, hleft⟩ : ∃ left, entered.rest = left ++ more := by
    obtain ⟨-, -, rfl⟩ | ⟨l, hread, -⟩ := hlexeme
    · exact ⟨rest, hnext⟩
    · refine ⟨l.text ++ rest, ?_⟩
      rw [List.append_assoc, ← hnext]
      exact (Lexeme.next?_eq_some hread).2.symm
  have hcs : cs = blanks ++ left := by
    have hwhole := hentered.rest
    rw [hrest, hleft, ← List.append_assoc] at hwhole
    exact List.append_cancel_right hwhole
  rw [hnext, hleft] at hlexeme
  exact ⟨layout, entered, blanks, left, hline, hstart, hcs, hblanks, hleft, hlexeme⟩

/-- Reading up to the cut, which is made after a line break, comes to the end of the text. -/
theorem Reads.of_append (h : r.Reads found last) : ∀ {before cs}, r.At before →
    r.rest = cs ++ last.rest → (∀ c ∈ cs.getLast?, c = '\n') →
      (r.leaving cs).Reads found (last.leaving []) := by
  -- by induction on the steps: what is left of the text before the cut shrinks with each lexeme
  induction h with
  | @refl r =>
    intro before cs _ hrest _
    rw [List.append_left_eq_self.1 hrest.symm]
    exact .refl
  | @step r next last found others hne hstep hmore ih =>
    intro before cs hat hrest hbreak
    obtain ⟨piece, _, hfirst⟩ := advances_of_step hat hstep
    obtain ⟨rest, _, hothers⟩ := hmore.advances hfirst.stands
    have hrest' : next.rest = rest ++ last.rest := hothers.rest
    obtain ⟨layout, entered, blanks, left, hline, -, rfl, hblanks, hleft, hlexeme⟩ :=
      exists_of_step_append hat hstep hrest hrest'
    have hleftBreak : left ≠ [] → ∀ c ∈ left.getLast?, c = '\n' := fun hne c hc =>
      hbreak c (by rw [List.getLast?_append_of_ne_nil _ hne]; exact hc)
    obtain ⟨hnil, -, rfl⟩ | ⟨l, hread, rfl, hnext⟩ := hlexeme
    · -- an indentation does not end with a line break
      obtain ⟨rfl, hlast⟩ := List.append_eq_nil_iff.1 hnil
      rw [List.append_nil] at hrest hbreak
      obtain ⟨before, c, rfl⟩ := (List.eq_nil_or_concat blanks).resolve_left fun hblank => hne
        (by rw [hrest, hblank, hlast]; rfl)
      rw [List.concat_eq_append] at hbreak hblanks
      obtain rfl : c = '\n' := hbreak c (by rw [List.getLast?_concat]; rfl)
      exact absurd (hblanks '\n' (by simp)) (by decide)
    · have hcut : l.text ++ rest = left := Split.Cuts.of_append (Lexeme.next?_eq_some hread)
      have hne' : left ≠ [] := by
        rw [← hcut]
        exact List.append_ne_nil_of_left_ne_nil (Lexeme.next?_eq_some hread).1 rest
      have hreturn : left ≠ ['\r'] := by
        rintro rfl
        exact absurd (hleftBreak hne' '\r' rfl) (by decide)
      have hblank : isBlankLine (left ++ last.rest) = isBlankLine (left ++ []) :=
        isBlankLine_append_eq hne' hreturn _ _
      have hread' : Lexeme.next? (left ++ []) = some (l, rest ++ []) := by
        rw [List.append_nil, List.append_nil]
        exact Lexeme.next?_of_append hread
      have hcutStep := step_leaving hline hrest hleft hblank hread' hne'
      rw [← hnext, List.append_nil, List.append_nil] at hcutStep
      refine .step (List.append_ne_nil_of_right_ne_nil blanks hne') hcutStep
        (ih hfirst.stands hrest' fun c hc => ?_)
      refine hleftBreak hne' c ?_
      rw [← hcut, List.getLast?_append, hc]
      rfl

/-- Reading on never lengthens the text. -/
theorem Reads.length_rest_le (h : r.Reads found last) : last.rest.length ≤ r.rest.length := by
  induction h with
  | refl => exact Nat.le_refl _
  | step hne hstep _ ih => exact Nat.le_trans ih (Nat.le_of_lt (length_rest_step hne hstep))

/-- Where no text is taken there has been no step. -/
theorem Reads.eq_of_rest_eq (h : r.Reads found last) (hrest : r.rest = last.rest) :
    found = [] ∧ r = last := by
  cases h with
  | refl => exact ⟨rfl, rfl⟩
  | step hne hstep hmore =>
    have hle := hmore.length_rest_le
    have hless := length_rest_step hne hstep
    rw [hrest] at hless
    omega

/-- Inside a line there is a lexeme wherever reading goes on. -/
theorem Reads.next?_ne_none (h : r.Reads found last) (hstart : r.atLineStart = false)
    (hrest : r.rest ≠ last.rest) : Lexeme.next? r.rest ≠ none := by
  cases h with
  | refl => exact absurd rfl hrest
  | step hne hstep _ =>
    obtain ⟨layout, entered, hline, hlexeme⟩ := exists_of_step hstep
    rw [enterLine_of_atLineStart hstart] at hline
    cases hline
    obtain ⟨hnil, -⟩ | ⟨l, hread, -⟩ := hlexeme
    · exact absurd hnil hne
    · rw [hread]
      exact Option.some_ne_none _

/-- At most the given number of steps, as long as there is text. -/
def steps : Nat → Reader → Except SyntaxError (List Token × Reader)
  | 0, r => .ok ([], r)
  | n + 1, r =>
    if r.rest = [] then .ok ([], r)
    else do
      let (found, next) ← r.step
      let (more, last) ← steps n next
      return (found ++ more, last)

theorem reads_of_steps {n : Nat} (h : steps n r = .ok (found, last)) : r.Reads found last := by
  induction n generalizing r found with
  | zero =>
    obtain ⟨rfl, rfl⟩ := Prod.mk.inj (Except.ok.inj h)
    exact .refl
  | succ n ih =>
    unfold steps at h
    split at h
    · obtain ⟨rfl, rfl⟩ := Prod.mk.inj (Except.ok.inj h)
      exact .refl
    · obtain ⟨⟨taken, next⟩, hstep, h⟩ := Results.bind_eq_ok.1 h
      obtain ⟨⟨more, _⟩, hmore, h⟩ := Results.bind_eq_ok.1 h
      obtain ⟨rfl, rfl⟩ := Prod.mk.inj (Results.pure_eq_ok.1 h)
      exact .step ‹_› hstep (ih hmore)

/-! ## The beginning of a line -/

theorem EntersBlock.blocks_pos {width : Nat} (h : r.EntersBlock width found entered)
    (hr : ∀ b ∈ r.blocks, 0 < b) : ∀ b ∈ entered.blocks, 0 < b := by
  cases h with
  | opens hwidth => exact List.forall_mem_cons.2 ⟨Nat.zero_lt_of_lt hwidth, hr⟩
  | closes => exact fun b hb => hr b ((List.dropWhile_suffix _).subset hb)

theorem blocks_pos_of_enterLine (hr : ∀ b ∈ r.blocks, 0 < b)
    (h : r.enterLine = .ok (layout, entered)) : ∀ b ∈ entered.blocks, 0 < b := by
  cases enterLine_eq_ok.1 h with
  | within | blank => exact hr
  | block _ _ _ hblock => exact hblock.blocks_pos hr

theorem blocks_of_lexeme (h : r.lexeme = .ok (taken, next)) : next.blocks = r.blocks := by
  obtain ⟨l, rest, -, htake⟩ | ⟨-, -, rfl⟩ := lexeme_eq_ok.1 h
  · cases take_eq_iff.1 htake with
    | token | lineEnd | lineBreak | gap => rfl
  · rfl

/-- Blocks are indented. -/
theorem blocks_pos_of_step (hr : ∀ b ∈ r.blocks, 0 < b) (h : r.step = .ok (found, next)) :
    ∀ b ∈ next.blocks, 0 < b := by
  obtain ⟨layout, entered, taken, hline, hlexeme, -⟩ := step_eq_ok_iff.1 h
  rw [blocks_of_lexeme hlexeme]
  exact blocks_pos_of_enterLine hr hline

theorem Reads.blocks_pos (h : r.Reads found last) (hr : ∀ b ∈ r.blocks, 0 < b) :
    ∀ b ∈ last.blocks, 0 < b := by
  induction h with
  | refl => exact hr
  | step _ hstep _ ih => exact ih (blocks_pos_of_step hr hstep)

/-- A reader at the beginning of a line, after some text. -/
theorem Reads.eq_atLine {code : String} (h : (ofText code).Reads found last)
    (hcode : code.toList = cs ++ last.rest) (hstart : last.atLineStart = true) :
    last = atLine last.blocks (1 + cs.count '\n') last.rest ∧ ∀ c ∈ cs.getLast?, c = '\n' := by
  obtain ⟨piece, _, hadvances⟩ := h.advances (at_ofText code)
  obtain rfl : cs = piece := (List.append_left_inj _).1 (hcode.symm.trans hadvances.rest)
  have hat := hadvances.stands
  rw [List.nil_append] at hat
  obtain ⟨hdepth, hbreak⟩ := hat.lineStart hstart
  obtain ⟨hbetween, -⟩ := (h.keeps (keeps_ofText code)).lineStart hstart
  refine ⟨?_, hbreak⟩
  have hhere : last.here = ⟨1 + cs.count '\n', 1⟩ := by
    have hlast : cs.rtakeWhile (· != '\n') = [] := by
      obtain rfl | ⟨before, c, rfl⟩ := List.eq_nil_or_concat cs
      · rfl
      · rw [List.concat_eq_append] at hbreak ⊢
        obtain rfl : c = '\n' := hbreak c (by rw [List.getLast?_concat]; rfl)
        exact List.rtakeWhile_concat_neg _ _ _ (by simp)
    rw [hat.here, Position.after, hlast]
    rfl
  obtain ⟨_, _, _, _, _, _⟩ := last
  dsimp only at hdepth hbetween hhere hstart
  subst hdepth hbetween hhere hstart
  rfl

end Reader

/-- What is found up to the beginning of a line is what is found of the text before that line, up to
the ends of its blocks and its own end. -/
theorem tokenize_of_reads {a b : String} {found : List Token} {r : Reader}
    (h : (Reader.ofText (a ++ b)).Reads found r) (hrest : r.rest = b.toList)
    (hstart : r.atLineStart = true) : tokenize a = .ok (found ++ (r.leaving []).finish) := by
  have hcode : (a ++ b).toList = a.toList ++ r.rest := by rw [hrest, String.toList_append]
  have hcut := h.of_append (Reader.at_ofText _) hcode (h.eq_atLine hcode hstart).2
  have htokens := hcut.tokens_eq
  rw [Reader.tokens_of_rest_eq_nil (r := r.leaving []) rfl] at htokens
  exact htokens

end NoteCheck.Code
