/-
# What a step does

A step reads the indentation of a line, if the reader stands before one, and then a lexeme, if there
is text left. The main statements are `enterLine_eq_ok`, in which ways a line is entered, and
`step_eq_ok_iff`, what a step is made of. What is kept from step to step is shown from these, way by
way, and not from the definitions.
-/
import NoteCheck.Code.Layout
import NoteCheck.Proofs.Results
import Mathlib.Tactic.Common

namespace NoteCheck.Code

namespace Reader

variable {r entered next : Reader} {found layout taken : List Token}

/-! ## Indentation -/

/-- The reader after the indentation of its line. -/
def pastIndent (r : Reader) : Reader :=
  { r.past (r.rest.takeWhile isIndent) (r.rest.dropWhile isIndent) with atLineStart := false }

/-- The ways in which a line of the given indentation is entered: it opens a block, or it closes the
blocks that are indented further. -/
inductive EntersBlock (r : Reader) (width : Nat) : List Token → Reader → Prop
  | opens : r.indentation < width →
      r.EntersBlock width [r.marker .indent]
        { r with blocks := width :: r.blocks, betweenLines := false }
  | closes : ¬r.indentation < width → (r.blocks.dropWhile (width < ·)).headD 0 = width →
      r.EntersBlock width ((r.blocks.takeWhile (width < ·)).map fun _ => r.marker .dedent)
        { r with
          blocks := r.blocks.dropWhile (width < ·)
          betweenLines := r.betweenLines && (r.blocks.takeWhile (width < ·)).isEmpty }

theorem enterBlock_eq_ok {width : Nat} :
    r.enterBlock width = .ok (found, next) ↔ r.EntersBlock width found next := by
  unfold enterBlock
  constructor
  · intro h
    split at h
    · cases h
      exact .opens ‹_›
    · dsimp only at h
      split at h
      · cases h
        exact .closes ‹_› ‹_›
      · cases h
  · rintro (hwidth | ⟨hwidth, hblocks⟩)
    · rw [if_pos hwidth]
    · rw [if_neg hwidth]
      exact if_pos hblocks

/-- What opening and closing blocks leave as it is. -/
structure SameLine (r next : Reader) : Prop where
  rest : next.rest = r.rest
  here : next.here = r.here
  depth : next.depth = r.depth
  atLineStart : next.atLineStart = r.atLineStart

theorem EntersBlock.sameLine {width : Nat} (h : r.EntersBlock width found next) :
    SameLine r next := by
  cases h with
  | opens | closes => exact ⟨rfl, rfl, rfl, rfl⟩

/-- The ways in which a line is entered. Inside a line and inside brackets there is no indentation
to read, and that of a line without tokens opens and closes nothing. -/
inductive EntersLine (r : Reader) : List Token → Reader → Prop
  | within : (r.atLineStart = true → r.depth ≠ 0) → r.EntersLine [] r
  | blank : r.atLineStart = true → r.depth = 0 → isBlankLine r.pastIndent.rest = true →
      r.EntersLine [] r.pastIndent
  | block {found : List Token} {next : Reader} : r.atLineStart = true → r.depth = 0 →
      isBlankLine r.pastIndent.rest = false →
      r.pastIndent.EntersBlock (indentWidth (r.rest.takeWhile isIndent)) found next →
      r.EntersLine found next

theorem enterLine_eq_ok :
    r.enterLine = .ok (found, next) ↔ r.EntersLine found next := by
  have hcondition :
      (r.atLineStart && r.depth == 0) = true ↔ r.atLineStart = true ∧ r.depth = 0 := by
    rw [Bool.and_eq_true, beq_iff_eq]
  have hindent : r.indent = if isBlankLine r.pastIndent.rest then .ok ([], r.pastIndent)
      else r.pastIndent.enterBlock (indentWidth (r.rest.takeWhile isIndent)) := rfl
  rw [enterLine, hindent]
  constructor
  · intro h
    split at h
    · rename_i hline
      obtain ⟨hstart, hdepth⟩ := hcondition.1 hline
      split at h
      · cases h
        exact .blank hstart hdepth ‹_›
      · exact .block hstart hdepth (Bool.eq_false_iff.2 ‹_›) (enterBlock_eq_ok.1 h)
    · rename_i hline
      cases h
      exact .within fun hstart hdepth => hline (hcondition.2 ⟨hstart, hdepth⟩)
  · rintro (hwithin | ⟨hstart, hdepth, hblank⟩ | ⟨hstart, hdepth, hblank, hblock⟩)
    · rw [if_neg fun hline => hwithin (hcondition.1 hline).1 (hcondition.1 hline).2]
    · rw [if_pos (hcondition.2 ⟨hstart, hdepth⟩), if_pos hblank]
    · rw [if_pos (hcondition.2 ⟨hstart, hdepth⟩), if_neg (Bool.eq_false_iff.1 hblank)]
      exact enterBlock_eq_ok.2 hblock

/-- Inside a line there is none to enter. -/
theorem enterLine_of_atLineStart (hstart : r.atLineStart = false) : r.enterLine = .ok ([], r) :=
  enterLine_eq_ok.2 (.within fun h => absurd (hstart.symm.trans h) Bool.false_ne_true)

/-- A line is not entered if it has tokens and its indentation is that of no block. -/
theorem of_enterLine_eq_error {e : SyntaxError} (h : r.enterLine = .error e) :
    r.atLineStart = true ∧ isBlankLine r.pastIndent.rest = false ∧
      e = ⟨.inconsistentIndentation, r.pastIndent.here⟩ := by
  rw [enterLine] at h
  split at h
  · rename_i hline
    unfold indent enterBlock at h
    dsimp only at h
    split at h
    · cases h
    · rename_i hblank
      refine ⟨(Bool.and_eq_true_iff.1 hline).1, Bool.eq_false_iff.2 hblank, ?_⟩
      split at h
      · cases h
      · split at h
        · cases h
        · exact (Except.error.inj h).symm
  · cases h

theorem ne_nil_of_enterLine (h : r.enterLine = .ok (layout, entered)) (hne : entered.rest ≠ []) :
    r.rest ≠ [] := by
  have hle := length_rest_enterLine h
  have hpos := List.length_pos_iff.2 hne
  exact List.length_pos_iff.1 (by omega)

/-- Where no line is entered nothing changes, and otherwise the reader goes past the indentation. -/
theorem EntersLine.eq_or_sameLine (h : r.EntersLine found next) :
    (r.atLineStart = true → r.depth ≠ 0) ∧ found = [] ∧ next = r ∨
      r.atLineStart = true ∧ r.depth = 0 ∧ SameLine r.pastIndent next := by
  cases h with
  | within hwithin => exact .inl ⟨hwithin, rfl, rfl⟩
  | blank hstart hdepth => exact .inr ⟨hstart, hdepth, rfl, rfl, rfl, rfl⟩
  | block hstart hdepth _ hblock => exact .inr ⟨hstart, hdepth, hblock.sameLine⟩

/-- The marks that are made where a line is entered stand at its first lexeme. -/
theorem eq_marker_of_enterLine (h : r.enterLine = .ok (layout, entered)) :
    ∀ t ∈ layout, t = entered.marker .indent ∨ t = entered.marker .dedent := by
  cases enterLine_eq_ok.1 h with
  | within | blank => exact List.forall_mem_nil _
  | block _ _ _ hblock =>
    cases hblock with
    | opens => exact List.forall_mem_singleton.2 (.inl rfl)
    | closes => exact List.forall_mem_map.2 fun _ _ => .inr rfl

/-! ## Lexemes -/

theorem lexeme_of_next? {l : Lexeme} {rest : List Char} (h : Lexeme.next? r.rest = some (l, rest)) :
    r.lexeme = .ok (r.take l rest) := by
  rw [lexeme, h]

/-- The ways in which a reader goes on: over a lexeme, or not at all at the end of the text. -/
theorem lexeme_eq_ok : r.lexeme = .ok (taken, next) ↔
    (∃ l rest, Lexeme.next? r.rest = some (l, rest) ∧ r.take l rest = (taken, next)) ∨
      r.rest = [] ∧ taken = [] ∧ next = r := by
  constructor
  · intro h
    unfold lexeme at h
    split at h
    · rename_i l rest hnext
      exact .inl ⟨l, rest, hnext, Except.ok.inj h⟩
    · cases h
      exact .inr ⟨‹_›, rfl, rfl⟩
    · cases h
  · rintro (⟨l, rest, hnext, htake⟩ | ⟨hnil, rfl, rfl⟩)
    · rw [lexeme_of_next? hnext, htake]
    · rw [lexeme, hnil]
      rfl

/-- A reader does not go on where there is text and no lexeme begins. -/
theorem of_lexeme_eq_error {e : SyntaxError} (h : r.lexeme = .error e) :
    ∃ c rest, r.rest = c :: rest ∧ Lexeme.next? r.rest = none ∧
      e = ⟨if c = '"' ∨ c = '\'' then .unterminatedString else .unrecognised c, r.here⟩ := by
  unfold lexeme at h
  split at h
  · cases h
  · cases h
  · exact ⟨_, _, ‹_›, ‹_›, (Except.error.inj h).symm⟩

/-- What comes of a lexeme: a token, the end of a line, or nothing. -/
inductive Takes (r : Reader) (rest : List Char) : Lexeme → List Token → Reader → Prop
  | token {kind text} : r.Takes rest (.token kind text)
      [⟨kind, String.ofList text, r.spanOf kind text⟩]
      { r.past text rest with depth := kind.depthAfter r.depth, betweenLines := false }
  | lineEnd {text} : r.depth = 0 → r.betweenLines = false → r.Takes rest (.lineBreak text)
      [⟨.newline, "\n", .ofText r.here []⟩]
      { r.past text rest with atLineStart := true, betweenLines := true }
  | lineBreak {text} : (r.depth = 0 → r.betweenLines = true) → r.Takes rest (.lineBreak text) []
      { r.past text rest with atLineStart := r.depth == 0 }
  | gap {text} : r.Takes rest (.gap text) [] (r.past text rest)

theorem take_eq_iff {l : Lexeme} {rest : List Char} :
    r.take l rest = (taken, next) ↔ r.Takes rest l taken next := by
  constructor
  · intro h
    cases l with
    | token =>
      cases h
      exact .token
    | lineBreak text =>
      unfold take at h
      dsimp only at h
      split at h
      · rename_i hends
        obtain ⟨hdepth, hbetween⟩ := Bool.and_eq_true_iff.1 hends
        rw [hdepth] at h
        cases h
        exact .lineEnd (beq_iff_eq.1 hdepth) ((Bool.not_eq_true' _).mp hbetween)
      · rename_i hstays
        cases h
        refine .lineBreak fun hdepth => ?_
        simpa [hdepth] using hstays
    | gap =>
      cases h
      exact .gap
  · rintro (_ | ⟨hdepth, hbetween⟩ | hstays | _)
    · rfl
    · unfold take
      dsimp only
      rw [if_pos (by rw [hdepth, hbetween]; rfl), hdepth]
      rfl
    · unfold take
      dsimp only
      rw [if_neg]
      · rfl
      · simpa using hstays
    · rfl

/-! ## Steps -/

/-- A step enters the line, if there is one to enter, and goes on over a lexeme. -/
theorem step_eq_ok_iff : r.step = .ok (found, next) ↔ ∃ layout entered taken,
    r.enterLine = .ok (layout, entered) ∧ entered.lexeme = .ok (taken, next) ∧
      found = layout ++ taken := by
  rw [step]
  constructor
  · intro h
    obtain ⟨⟨layout, entered⟩, hline, h⟩ := Results.bind_eq_ok.1 h
    obtain ⟨⟨taken, _⟩, hlexeme, h⟩ := Results.bind_eq_ok.1 h
    obtain ⟨rfl, rfl⟩ := Prod.mk.inj (Results.pure_eq_ok.1 h)
    exact ⟨layout, entered, taken, hline, hlexeme, rfl⟩
  · rintro ⟨layout, entered, taken, hline, hlexeme, rfl⟩
    exact Results.bind_eq_ok.2 ⟨_, hline, Results.bind_eq_ok.2 ⟨_, hlexeme, rfl⟩⟩

theorem step_eq_ok (hline : r.enterLine = .ok (layout, entered))
    (hlexeme : entered.lexeme = .ok (taken, next)) : r.step = .ok (layout ++ taken, next) :=
  step_eq_ok_iff.2 ⟨_, _, _, hline, hlexeme, rfl⟩

theorem step_eq_error_iff {e : SyntaxError} : r.step = .error e ↔ r.enterLine = .error e ∨
    ∃ layout entered, r.enterLine = .ok (layout, entered) ∧ entered.lexeme = .error e := by
  rw [step, Results.bind_eq_error]
  refine or_congr_right ?_
  constructor
  · rintro ⟨⟨layout, entered⟩, hline, h⟩
    obtain h | ⟨_, -, h⟩ := Results.bind_eq_error.1 h
    · exact ⟨layout, entered, hline, h⟩
    · cases h
  · rintro ⟨layout, entered, hline, h⟩
    exact ⟨_, hline, Results.bind_eq_error.2 (.inl h)⟩

/-- A step from the beginning of a line is the step from its first lexeme on, with the marks before
it. -/
theorem step_of_enterLine (hline : r.enterLine = .ok (layout, entered))
    (hstart : entered.atLineStart = false) :
    r.step = entered.step.map (Prod.map (layout ++ ·) id) := by
  rw [step, step, hline, enterLine_of_atLineStart hstart]
  show (entered.lexeme >>= _) = (entered.lexeme >>= _).map _
  cases entered.lexeme <;> rfl

/-! ## Whole texts -/

theorem tokens_of_rest_eq_nil (h : r.rest = []) : r.tokens = .ok r.finish := by
  rw [Reader.tokens, dif_pos h]

theorem tokens_eq_of_step (hne : r.rest ≠ []) (h : r.step = .ok (found, next)) :
    r.tokens = next.tokens.map (found ++ ·) := by
  rw [Reader.tokens, dif_neg hne]
  split <;> simp_all

theorem tokens_of_step_eq_error {e : SyntaxError} (hne : r.rest ≠ []) (h : r.step = .error e) :
    r.tokens = .error e := by
  rw [Reader.tokens, dif_neg hne]
  split <;> simp_all

end Reader

end NoteCheck.Code
