/-
# Layout without meaning

A line without tokens means nothing where a line may begin, nor does a filler inside brackets. The
main statement, `exists_tokenize_insert`: put into a text at a place where a reader stands, they
change none of the tokens before that place, and of the tokens after it only the places.
-/
import NoteCheck.Proofs.Layout.AfterBlock
import NoteCheck.Proofs.Layout.Inserted
import NoteCheck.Proofs.Layout.Order
import NoteCheck.Proofs.Layout.TwoTexts

namespace NoteCheck.Code

/-! ## Fillers -/

namespace Filler

variable {after filler : List Char}

/-- A filler begins with a delimiter. -/
theorem delimited (h : Filler after filler) (hne : filler ≠ []) (more : List Char) :
    Delimited (filler ++ more) := by
  cases h with
  | nil => exact absurd rfl hne
  | @blank c rest hc _ =>
    have hother : c = ' ' ∨ c = '\t' ∨ c = '\x0c' ∨ c = '\r' := by
      simpa [Gap.isBlank, or_assoc] using hc
    obtain rfl | rfl | rfl | rfl := hother <;> constructor
  | lineBreak => exact .lineBreak
  | joint => exact .joint
  | comment => exact .comment

/-- The rest of a line may be left out of a filler. -/
theorem dropWhile_line (h : Filler after filler) :
    Filler after (filler.dropWhile (· != '\n')) := by
  induction h with
  | nil => exact .nil
  | @blank c rest hc _ ih =>
    rw [List.dropWhile_cons_of_pos]
    · exact ih
    · rw [bne_iff_ne]
      rintro rfl
      cases hc
  | lineBreak h => exact .lineBreak h
  | joint hbreak h =>
    obtain rfl | rfl := hbreak
    · exact .lineBreak h
    · exact .lineBreak h
  | @comment text rest htext _ _ ih =>
    rw [List.dropWhile_cons_of_pos rfl, List.dropWhile_append_of_pos]
    · exact ih
    · exact fun c hc => bne_iff_ne.2 (htext c hc)

/-- A filler is a filler with a gap before it, too. A comment goes on in its first line. -/
theorem gap_append (h : Filler after filler) {cs gap : List Char}
    (hgap : Gap.read? cs = some (gap, after)) : Filler after (gap ++ filler) := by
  obtain hbefore | ⟨note, rfl, hnote, hafter⟩ := Gap.filler_or_comment_of_read? hgap
  · exact (hbefore _).append h
  have hline :
      note ++ filler = note ++ filler.takeWhile (· != '\n') ++ filler.dropWhile (· != '\n') := by
    rw [List.append_assoc, List.takeWhile_append_dropWhile]
  rw [List.cons_append, hline]
  refine .comment (List.forall_mem_append.2 ⟨hnote, fun c hc => ?_⟩) (fun c hc => ?_)
    h.dropWhile_line
  · simpa using List.mem_takeWhile_imp hc
  · cases hrest : filler.dropWhile (· != '\n') with
    | nil =>
      rw [hrest] at hc
      exact hafter c hc
    | cons d rest =>
      have hhead := List.head?_dropWhile_not (· != '\n') filler
      rw [hrest] at hc hhead
      obtain rfl : d = c := Option.some.inj hc
      simpa using hhead

end Filler

/-- A line without tokens: indentation, perhaps a comment, and a line break. -/
def IsIdleLine (line : List Char) : Prop :=
  ∃ blanks note, line = blanks ++ (note ++ ['\n']) ∧ (∀ c ∈ blanks, Reader.isIndent c = true) ∧
    (note = [] ∨ note = ['\r'] ∨ ∃ text, note = '#' :: text ∧ ∀ c ∈ text, c ≠ '\n')

theorem IsIdleLine.filler {line : List Char} (h : IsIdleLine line) (after : List Char) :
    Filler after line := by
  obtain ⟨blanks, note, rfl, hblanks, hnote⟩ := h
  refine .append (filler_of_isBlank fun c hc => Gap.isBlank_of_isIndent (hblanks c hc)) ?_
  have hbreak : Filler after ['\n'] := .lineBreak .nil
  obtain rfl | rfl | ⟨text, rfl, htext⟩ := hnote
  · exact hbreak
  · exact .blank rfl hbreak
  · exact .comment htext (fun c hc => (Option.some.inj hc).symm) hbreak

namespace Reader

variable {r entered next last : Reader} {cs rest filler : List Char} {found layout : List Token}

theorem past_past (r : Reader) (a b left rest : List Char) :
    (r.past a left).past b rest = r.past (a ++ b) rest := by
  show Reader.mk rest ((r.here.advance a).advance b) _ _ _ _ = _
  rw [← Position.advance_append]
  rfl

/-! ## Inside brackets -/

/-- Inside brackets a line break is passed over, as a gap is everywhere. -/
theorem tokens_of_silent {l : Lexeme} (hstart : r.atLineStart = false) (hdepth : 0 < r.depth)
    (hnext : Lexeme.next? cs = some (l, rest)) (hsilent : ∀ kind text, l ≠ .token kind text) :
    (r.leaving cs).tokens = (r.past l.text rest).tokens := by
  have htake : (r.leaving cs).take l rest = ([], r.past l.text rest) := by
    cases l with
    | token kind text => exact absurd rfl (hsilent kind text)
    | gap => rfl
    | lineBreak text =>
      obtain ⟨_, here, depth, blocks, atLineStart, between⟩ := r
      obtain ⟨depth, rfl⟩ := Nat.exists_eq_succ_of_ne_zero hdepth.ne'
      obtain rfl : atLineStart = false := hstart
      rfl
  have hstep := step_of_next? (enterLine_of_atLineStart (r := r.leaving cs) hstart) hnext
  rw [htake] at hstep
  rw [tokens_eq_of_step (r := r.leaving cs) (ne_nil_of_next? hnext) hstep]
  exact congrFun Except.map_id _

theorem tokens_of_blanks (hstart : r.atLineStart = false) (hdepth : 0 < r.depth) (cs : List Char) :
    (r.leaving cs).tokens =
      (r.past (cs.takeWhile Gap.isBlank) (cs.dropWhile Gap.isBlank)).tokens := by
  cases cs with
  | nil => rfl
  | cons c cs =>
    by_cases hc : Gap.isBlank c = true
    · rw [List.takeWhile_cons_of_pos hc, List.dropWhile_cons_of_pos hc]
      cases hbreak : Gap.lineBreak? (c :: cs) with
      | none => exact tokens_of_silent hstart hdepth (Lexeme.next?_blanks hc hbreak) nofun
      | some s =>
        -- the carriage return of a line break is passed over by itself or with the line break
        obtain ⟨text, rest⟩ := s
        have hcut := (Gap.cuts_of_lineBreak? hbreak).2
        obtain rfl | rfl := Gap.of_lineBreak? hbreak
        · obtain ⟨rfl, -⟩ := List.cons.inj hcut
          cases hc
        · obtain ⟨rfl, rfl⟩ : '\r' = c ∧ '\n' :: rest = cs := List.cons.inj hcut
          have hfirst := tokens_of_silent hstart hdepth (Lexeme.next?_return rest) nofun
          have hsecond := tokens_of_silent (r := r.past ['\r'] ('\n' :: rest)) hstart hdepth
            (Lexeme.next?_lineBreak rest) nofun
          exact hfirst.trans hsecond.symm
    · rw [List.takeWhile_cons_of_neg hc, List.dropWhile_cons_of_neg hc]
      rfl

theorem tokens_of_blank (hstart : r.atLineStart = false) (hdepth : 0 < r.depth) {c : Char}
    (hc : Gap.isBlank c = true) (cs : List Char) :
    (r.leaving (c :: cs)).tokens = (r.past [c] cs).tokens := by
  have hfirst := tokens_of_blanks hstart hdepth (c :: cs)
  have hsecond := tokens_of_blanks (r := r.past [c] cs) hstart hdepth cs
  rw [List.takeWhile_cons_of_pos hc, List.dropWhile_cons_of_pos hc] at hfirst
  exact hfirst.trans hsecond.symm

/-- Inside brackets a filler is passed over. -/
theorem tokens_of_filler (hstart : r.atLineStart = false) (hdepth : 0 < r.depth)
    (h : Filler rest filler) :
    (r.leaving (filler ++ rest)).tokens = (r.past filler rest).tokens := by
  induction h generalizing r with
  | nil => rfl
  | @blank c filler hc _ ih =>
    have hmore := ih (r := r.past [c] (filler ++ rest)) hstart hdepth
    exact (tokens_of_blank hstart hdepth hc _).trans hmore
  | @lineBreak filler _ ih =>
    have hmore := ih (r := r.past ['\n'] (filler ++ rest)) hstart hdepth
    exact (tokens_of_silent hstart hdepth (Lexeme.next?_lineBreak _) nofun).trans hmore
  | @joint lineBreak filler hbreak _ ih =>
    have hread : Gap.lineBreak? (lineBreak ++ (filler ++ rest)) =
        some (lineBreak, filler ++ rest) := by
      obtain rfl | rfl := hbreak <;> rfl
    have hmore := ih (r := r.past ('\\' :: lineBreak) (filler ++ rest)) hstart hdepth
    rw [past_past] at hmore
    rw [List.cons_append, List.append_assoc]
    exact (tokens_of_silent hstart hdepth (Lexeme.next?_joint hread) nofun).trans hmore
  -- a comment goes up to the line break, which is left to the filler or to what follows it
  | @comment note filler hnote hend _ ih =>
    have hread : Lexeme.next? ('#' :: (note ++ (filler ++ rest))) =
        some (.gap ('#' :: note), filler ++ rest) := by
      have hplain : ∀ c ∈ note, (c != '\n') = true := fun c hc => bne_iff_ne.2 (hnote c hc)
      rw [Lexeme.next?_comment, List.takeWhile_append_of_pos hplain,
        List.dropWhile_append_of_pos hplain]
      cases hleft : filler ++ rest with
      | nil => rw [List.takeWhile_nil, List.dropWhile_nil, List.append_nil]
      | cons c left =>
        obtain rfl := hend c (by rw [hleft]; rfl)
        rw [List.takeWhile_cons_of_neg (by decide), List.dropWhile_cons_of_neg (by decide),
          List.append_nil]
    have hmore := ih (r := r.past ('#' :: note) (filler ++ rest)) hstart hdepth
    rw [past_past] at hmore
    rw [List.cons_append, List.append_assoc]
    exact (tokens_of_silent hstart hdepth hread nofun).trans hmore

/-! ## Runs -/

/-- Layout without meaning where a reader stands: a line without tokens where a line begins, and a
filler inside brackets. -/
inductive Passes (r : Reader) : List Char → Prop
  | line {line} : r.atLineStart = true → r.depth = 0 → IsIdleLine line → r.Passes line
  | filler {text} : 0 < r.depth → Filler r.rest text → r.Passes text

theorem Passes.isFiller (h : r.Passes filler) : Filler r.rest filler := by
  cases h with
  | line _ _ hline => exact hline.filler _
  | filler _ hfiller => exact hfiller

/-- Inside brackets there is no indentation to read. -/
theorem eq_of_enterLine (h : r.enterLine = .ok (layout, entered)) (hdepth : 0 < entered.depth) :
    layout = [] ∧ entered = r := by
  obtain ⟨-, rfl, rfl⟩ | ⟨-, houtside, hsame⟩ := (enterLine_eq_ok.1 h).eq_or_sameLine
  · exact ⟨rfl, rfl⟩
  · exact absurd (hsame.depth.trans houtside) (Nat.ne_of_gt hdepth)

/-- A gap at the end of what is read goes on in the layout that is put in after it. -/
theorem tokens_insert_of_gap {gap ins : List Char} (hstart : r.atLineStart = false)
    (hdepth : 0 < r.depth) (hins : Filler rest ins) (hgap : Gap.read? cs = some (gap, rest)) :
    (r.leaving (gap ++ (ins ++ rest))).tokens =
      ((r.past gap rest).leaving (ins ++ rest)).tokens := by
  have hboth := tokens_of_filler hstart hdepth (hins.gap_append hgap)
  have hsecond := tokens_of_filler (r := r.past gap rest) hstart hdepth hins
  rw [List.append_assoc] at hboth
  rw [hboth, hsecond, past_past]

/-- Any other step is made alike where a filler is put in after its lexeme, or further on. -/
theorem step_insert {ins more left : List Char} {l : Lexeme} (hquotes : Quoteless ins)
    (hins : Filler more ins) (hline : r.enterLine = .ok (layout, entered))
    (hrest : r.rest = cs ++ more) (hleft : entered.rest = left ++ more)
    (hread : Lexeme.next? (left ++ more) = some (l, rest ++ more))
    (hgap : ¬(rest = [] ∧ ∃ text, l = .gap text))
    (hlater : rest ≠ [] → (∃ kind text, l = .token kind text) →
      Lexeme.next? (rest ++ more) ≠ none) :
    (r.leaving (cs ++ (ins ++ more))).step = .ok (layout ++ (entered.take l (rest ++ more)).1,
      (entered.take l (rest ++ more)).2.leaving (rest ++ (ins ++ more))) := by
  have hcut := Lexeme.next?_of_append hread
  have hne : left ≠ [] := ne_nil_of_next? hcut
  have hreturn : left ≠ ['\r'] := by
    rintro rfl
    obtain ⟨rfl, rfl⟩ := Prod.mk.inj (Option.some.inj hcut)
    exact hgap ⟨rfl, _, rfl⟩
  have hblank : isBlankLine (left ++ more) = isBlankLine (left ++ (ins ++ more)) :=
    isBlankLine_append_eq hne hreturn _ _
  have hread' := Lexeme.next?_insert hquotes (fun hne => hins.delimited hne _) hread
    (fun hend text htext => hgap ⟨hend, text, htext⟩) hlater
  exact step_leaving hline hrest hleft hblank hread' hne

/-- Reading on to a place comes there alike where layout without meaning is put in at that place. -/
theorem Reads.tokens_insert {ins : List Char} (hquotes : Quoteless ins) (h : r.Reads found last)
    (hins : last.Passes ins) : ∀ {before cs}, r.At before → r.rest = cs ++ last.rest →
      (r.leaving (cs ++ (ins ++ last.rest))).tokens =
        (last.leaving (ins ++ last.rest)).tokens.map (found ++ ·) := by
  induction h with
  | @refl r =>
    intro before cs _ hrest
    rw [List.append_left_eq_self.1 hrest.symm]
    exact (congrFun Except.map_id _).symm
  | @step r next last found others hne hstep hmore ih =>
    intro before cs hat hrest
    obtain ⟨piece, _, hfirst⟩ := advances_of_step hat hstep
    obtain ⟨rest, _, hothers⟩ := hmore.advances hfirst.stands
    have hrest' : next.rest = rest ++ last.rest := hothers.rest
    obtain ⟨layout, entered, blanks, left, hline, hstart, rfl, -, hleft, hlexeme⟩ :=
      exists_of_step_append hat hstep hrest hrest'
    -- where no text follows the step, it comes to the place itself
    have hlast (hend : rest = []) : others = [] ∧ next = last :=
      hmore.eq_of_rest_eq (by rw [hrest', hend]; rfl)
    have hbrackets (hinside : last.atLineStart = false) : 0 < last.depth := by
      cases hins with
      | line hbegins => exact absurd (hinside.symm.trans hbegins) Bool.false_ne_true
      | filler hdepth => exact hdepth
    obtain ⟨hnil, -, rfl⟩ | ⟨l, hread, rfl, hnext⟩ := hlexeme
    · obtain ⟨-, rfl⟩ := hlast (List.append_eq_nil_iff.1 (hrest'.symm.trans (hleft.trans hnil))).1
      obtain ⟨-, rfl⟩ := eq_of_enterLine hline (hbrackets hstart)
      exact absurd (hleft.trans hnil) hne
    by_cases hgap : rest = [] ∧ ∃ text, l = .gap text
    · obtain ⟨rfl, text, rfl⟩ := hgap
      obtain ⟨rfl, rfl⟩ := hlast rfl
      have hdepth : 0 < entered.depth := by
        have hinside : next.atLineStart = false := by rw [hnext]; exact hstart
        have hlast := hbrackets hinside
        rw [hnext] at hlast
        exact hlast
      obtain ⟨rfl, rfl⟩ := eq_of_enterLine hline hdepth
      obtain rfl : text = left := by
        have hcut := Split.Cuts.of_append (Lexeme.next?_eq_some hread)
        rwa [List.append_nil] at hcut
      obtain rfl : blanks = [] := by
        rw [hleft, List.append_assoc] at hrest
        exact List.append_left_eq_self.1 hrest.symm
      have hsame := tokens_insert_of_gap hstart hdepth hins.isFiller (Lexeme.read?_of_next? hread)
      have hplace : (entered.take (.gap text) next.rest).2 = entered.past text next.rest := rfl
      rw [List.nil_append, hsame, ← hplace]
      rw [List.nil_append] at hnext
      rw [← hnext]
      exact (congrFun Except.map_id _).symm
    · have hlater (hrest : rest ≠ []) (htoken : ∃ kind text, l = .token kind text) :
          Lexeme.next? (rest ++ last.rest) ≠ none := by
        obtain ⟨kind, text, rfl⟩ := htoken
        rw [← hrest']
        refine hmore.next?_ne_none (by rw [hnext]; exact hstart) fun hsame => hrest ?_
        exact List.append_left_eq_self.1 (hrest'.symm.trans hsame)
      have hstep' := step_insert hquotes hins.isFiller hline hrest hleft hread hgap hlater
      rw [← hnext] at hstep'
      have hne' : (r.leaving (blanks ++ left ++ (ins ++ last.rest))).rest ≠ [] := by
        refine List.append_ne_nil_of_left_ne_nil (List.append_ne_nil_of_right_ne_nil blanks ?_) _
        exact ne_nil_of_next? (Lexeme.next?_of_append hread)
      rw [tokens_eq_of_step hne' hstep', ih hins hfirst.stands hrest']
      cases (last.leaving (ins ++ last.rest)).tokens with
      | error e => rfl
      | ok tokens => exact congrArg Except.ok (List.append_assoc ..).symm

/-- A line without tokens is passed over where a line begins. -/
theorem tokens_of_idleLine {blocks : List Nat} {line : Nat} {ins : List Char} (h : IsIdleLine ins)
    (rest : List Char) : (atLine blocks line (ins ++ rest)).tokens =
      ((atLine blocks line rest).past ins rest).tokens := by
  obtain ⟨blanks, note, rfl, hblanks, hnote⟩ := h
  -- up to the line break there are only the indentation and a comment
  have hnobreak : ∀ c ∈ blanks ++ note, c ≠ '\n' := by
    rintro _ hc rfl
    obtain hc | hc := List.mem_append.1 hc
    · cases hblanks _ hc
    obtain rfl | rfl | ⟨text, rfl, htext⟩ := hnote
    · cases hc
    · exact absurd (List.mem_singleton.1 hc) (by decide)
    · obtain hc | hc := List.mem_cons.1 hc
      · exact absurd hc (by decide)
      · exact htext _ hc rfl
  have hassoc : blanks ++ (note ++ ['\n']) ++ rest = blanks ++ note ++ '\n' :: rest := by simp
  have hdrop : (blanks ++ note ++ '\n' :: rest).dropWhile isIndent = note ++ '\n' :: rest := by
    rw [List.append_assoc, List.dropWhile_append_of_pos hblanks]
    obtain rfl | rfl | ⟨text, rfl, -⟩ := hnote <;> rfl
  have hblank : isBlankLine ((blanks ++ note ++ '\n' :: rest).dropWhile isIndent) = true := by
    rw [hdrop]
    obtain rfl | rfl | ⟨text, rfl, -⟩ := hnote <;> rfl
  have hrest : (blanks ++ note ++ '\n' :: rest).dropWhile (· != '\n') = '\n' :: rest := by
    rw [List.dropWhile_append_of_pos fun c hc => bne_iff_ne.2 (hnobreak c hc)]
    rfl
  have hhere : Position.advance ⟨line, 1⟩ (blanks ++ (note ++ ['\n'])) = ⟨line + 1, 1⟩ := by
    rw [← List.append_assoc, Position.advance_append, Position.advance_cons, Position.advance_nil,
      Position.next, if_pos rfl, Position.line_advance _ fun hmem => hnobreak _ hmem rfl]
  rw [hassoc, tokens_of_blankLine hblank hrest, past]
  show _ = Reader.tokens ⟨rest, Position.advance ⟨line, 1⟩ _, _, _, _, _⟩
  rw [hhere]
  rfl

/-- Layout without meaning is passed over. -/
theorem tokens_of_passes {code : String} {ins : List Char} (h : (ofText code).Reads found last)
    (hcode : code.toList = cs ++ last.rest) (hins : last.Passes ins) :
    (last.leaving (ins ++ last.rest)).tokens = (last.past ins last.rest).tokens := by
  cases hins with
  | line hstart _ hline =>
    obtain ⟨hlast, -⟩ := h.eq_atLine hcode hstart
    generalize last.blocks = blocks, 1 + cs.count '\n' = line, last.rest = rest at hlast
    subst hlast
    exact tokens_of_idleLine hline rest
  | filler hdepth hfiller =>
    obtain ⟨_, _, hadvances⟩ := h.advances (at_ofText code)
    refine tokens_of_filler ?_ hdepth hfiller
    by_contra hstart
    have hzero := (hadvances.stands.lineStart (Bool.of_not_eq_false hstart)).1
    omega

/-! ## Before and after a place -/

theorem nil_of_enterLine (h : r.enterLine = .ok (layout, entered)) (hnil : entered.rest = []) :
    layout = [] := by
  cases enterLine_eq_ok.1 h with
  | within | blank => rfl
  | block _ _ hblank hblock =>
    rw [← hblock.sameLine.rest, hnil] at hblank
    cases hblank

theorem take_starts (r : Reader) (l : Lexeme) (rest : List Char) :
    (r.take l rest).2.here = r.here.advance l.text ∧
      ∀ t ∈ (r.take l rest).1, t.span.start = r.here := by
  obtain ⟨_, here, depth, _, _, between⟩ := r
  cases l with
  | gap => exact ⟨rfl, List.forall_mem_nil _⟩
  | token kind text =>
    refine ⟨rfl, List.forall_mem_singleton.2 ?_⟩
    show (spanOf _ kind text).start = here
    unfold spanOf
    split <;> rfl
  | lineBreak text =>
    cases depth with
    | succ => exact ⟨rfl, List.forall_mem_nil _⟩
    | zero =>
      cases between with
      | true => exact ⟨rfl, List.forall_mem_nil _⟩
      | false => exact ⟨rfl, List.forall_mem_singleton.2 rfl⟩

theorem start_lt_of_step (h : r.step = .ok (found, next)) :
    ∀ t ∈ found, t.span.start < next.here := by
  obtain ⟨layout, entered, hline, ⟨hnil, rfl, -⟩ | ⟨l, hread, rfl, hnext⟩⟩ := exists_of_step h
  · rw [nil_of_enterLine hline hnil]
    exact List.forall_mem_nil _
  · obtain ⟨hhere, hstarts⟩ := take_starts entered l next.rest
    rw [← hnext] at hhere
    have hless : entered.here < next.here := by
      rw [hhere]
      exact Position.lt_advance _ (Lexeme.next?_eq_some hread).1
    refine List.forall_mem_append.2 ⟨fun t ht => ?_, fun t ht => (hstarts t ht).trans_lt hless⟩
    have hlayout := (between_of_enterLine hline).of_mem t.span (List.mem_map_of_mem ht)
    exact hlayout.2.trans_lt hless

/-- What is found on the way begins before the place where it ends. -/
theorem Reads.start_lt (h : r.Reads found last) : ∀ t ∈ found, t.span.start < last.here := by
  induction h with
  | refl => exact List.forall_mem_nil _
  | step _ hstep hmore ih =>
    refine List.forall_mem_append.2 ⟨fun t ht => ?_, ih⟩
    exact (start_lt_of_step hstep t ht).trans_le hmore.between.le

end Reader

/-- Layout without meaning is put into a text at a place where a reader stands. Then the tokens that
begin before the place are as they were, and each token after it has the same kind and the same
text, as many lines further down as line breaks have been put in. -/
theorem exists_tokenize_insert {a ins b : String} {found tokens : List Token} {r : Reader}
    (h : (Reader.ofText (a ++ b)).Reads found r) (hrest : r.rest = b.toList)
    (hquotes : Quoteless ins.toList) (hins : r.Passes ins.toList)
    (htokens : tokenize (a ++ b) = .ok tokens) : ∃ later later',
      tokens = found ++ later ∧ tokenize (a ++ ins ++ b) = .ok (found ++ later') ∧
      (∀ t ∈ found, t.span.start < .after a.toList) ∧
      (∀ t ∈ later, .after a.toList ≤ t.span.start) ∧
      List.Forall₂ (Token.Moved fun p q =>
        q.line = p.line + ins.toList.count '\n') later later' := by
  have hcode : (a ++ b).toList = a.toList ++ r.rest := by rw [hrest, String.toList_append]
  obtain ⟨piece, _, hadvances⟩ := h.advances (Reader.at_ofText _)
  have hhere : r.here = .after a.toList := by
    obtain rfl : a.toList = piece := List.append_cancel_right (hcode.symm.trans hadvances.rest)
    exact hadvances.stands.here
  rw [tokenize, h.tokens_eq] at htokens
  obtain ⟨later, hlater, rfl⟩ := Results.map_eq_ok.1 htokens
  -- the reader stands in the other text as many lines further down
  have hline : (r.here.advance ins.toList).line = r.here.line + ins.toList.count '\n' :=
    Position.line_advance_eq _ _
  obtain ⟨later', hlater', hmoved⟩ :=
    Reader.exists_tokens_moved (Position.kept_line (ins.toList.count '\n')) hlater hline
  refine ⟨later, later', rfl, ?_, ?_, ?_, hmoved⟩
  · have hwhole := h.tokens_insert hquotes hins (Reader.at_ofText _) hcode
    rw [Reader.tokens_of_passes h hcode hins] at hwhole
    have hcode' : (a ++ ins ++ b).toList = a.toList ++ (ins.toList ++ r.rest) := by
      rw [hrest, String.toList_append, String.toList_append, List.append_assoc]
    rw [tokenize, Reader.ofText, hcode']
    exact hwhole.trans (Results.map_eq_ok.2 ⟨later', hlater', rfl⟩)
  · rw [← hhere]
    exact h.start_lt
  · rw [← hhere]
    obtain ⟨stop, hbetween⟩ := Reader.between_of_tokens hlater
    exact fun t ht => (hbetween.of_mem t.span (List.mem_map_of_mem ht)).1

/-- A comment and a blank line inside brackets, and a comment before an indented line. -/
theorem exists_tokenize_insert_note :
    (∃ found later later', tokenize ("f(" ++ "y)\n") = .ok (found ++ later) ∧
      tokenize ("f(" ++ " # note\n\n" ++ "y)\n") = .ok (found ++ later') ∧
      List.Forall₂ (Token.Moved fun p q => q.line = p.line + 2) later later') ∧
    ∃ found later later', tokenize ("if x:\n" ++ "  y\n") = .ok (found ++ later) ∧
      tokenize ("if x:\n" ++ "# note\n" ++ "  y\n") = .ok (found ++ later') ∧
      List.Forall₂ (Token.Moved fun p q => q.line = p.line + 1) later later' := by
  have hquotes {cs : List Char} (h : cs.all (fun c => c != '"' && c != '\'') = true) :
      Quoteless cs :=
    List.all_eq_true.1 h
  have hnote : ∀ c ∈ " note".toList, c ≠ '\n' := List.all_iff_forall_prop.1 (by decide)
  constructor
  · have hsteps : Reader.steps 2 (Reader.ofText ("f(" ++ "y)\n")) =
        .ok ([⟨.identifier, "f", ⟨⟨1, 1⟩, ⟨1, 2⟩⟩⟩, ⟨.openParen, "(", ⟨⟨1, 2⟩, ⟨1, 3⟩⟩⟩],
          .inside [] ⟨1, 3⟩ 1 false "y)\n".toList) := by decide +kernel
    have hcomment : Filler "y)\n".toList ('#' :: (" note".toList ++ "\n\n".toList)) :=
      .comment hnote (fun c hc => (Option.some.inj hc).symm) (.lineBreak (.lineBreak .nil))
    have hfiller : Filler "y)\n".toList " # note\n\n".toList := .blank rfl hcomment
    obtain ⟨tokens, htokens⟩ := Results.exists_of_isOk
      (show (tokenize ("f(" ++ "y)\n")).isOk = true by decide +kernel)
    obtain ⟨later, later', rfl, hother, -, -, hmoved⟩ := exists_tokenize_insert
      (Reader.reads_of_steps hsteps) rfl (hquotes (by decide)) (.filler Nat.one_pos hfiller) htokens
    exact ⟨_, later, later', htokens, hother, hmoved⟩
  · have hsteps : Reader.steps 5 (Reader.ofText ("if x:\n" ++ "  y\n")) = .ok
        ([⟨.kwIf, "if", ⟨⟨1, 1⟩, ⟨1, 3⟩⟩⟩, ⟨.identifier, "x", ⟨⟨1, 4⟩, ⟨1, 5⟩⟩⟩,
          ⟨.colon, ":", ⟨⟨1, 5⟩, ⟨1, 6⟩⟩⟩, ⟨.newline, "\n", ⟨⟨1, 6⟩, ⟨1, 6⟩⟩⟩],
          .atLine [] 2 "  y\n".toList) := by decide +kernel
    have hline : IsIdleLine "# note\n".toList :=
      ⟨[], "# note".toList, rfl, nofun, .inr (.inr ⟨" note".toList, rfl, hnote⟩)⟩
    obtain ⟨tokens, htokens⟩ := Results.exists_of_isOk
      (show (tokenize ("if x:\n" ++ "  y\n")).isOk = true by decide +kernel)
    obtain ⟨later, later', rfl, hother, -, -, hmoved⟩ := exists_tokenize_insert
      (Reader.reads_of_steps hsteps) rfl (hquotes (by decide)) (.line rfl rfl hline) htokens
    exact ⟨_, later, later', htokens, hother, hmoved⟩

end NoteCheck.Code
