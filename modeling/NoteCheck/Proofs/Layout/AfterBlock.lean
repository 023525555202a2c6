/-
# Texts after open blocks

A text that begins where blocks are still open closes them with its first line that is not blank.
The main statement, `exists_tokens_after_blocks`: apart from the marks of these ends the same is
found as at the beginning of a text, unless that line holds no token (`Hollow`).
-/
import NoteCheck.Proofs.Layout.Down

namespace NoteCheck.Code

open Reader

/-- A text goes on with gaps only, up to the end of its line. -/
inductive Vacant : List Char → Prop
  | nil : Vacant []
  | lineBreak {cs text rest} : Lexeme.next? cs = some (.lineBreak text, rest) → Vacant cs
  | gap {cs text rest} : Lexeme.next? cs = some (.gap text, rest) → Vacant rest → Vacant cs

/-- The first line of a text that does not count as blank holds no token. -/
inductive Hollow : List Char → Prop
  | line {cs} : isBlankLine (cs.dropWhile isIndent) = false → Vacant (cs.dropWhile isIndent) →
      Hollow cs
  | blank {cs rest} : isBlankLine (cs.dropWhile isIndent) = true →
      cs.dropWhile (· != '\n') = '\n' :: rest → Hollow rest → Hollow cs

theorem not_vacant_of_token {cs text rest : List Char} {kind : TokenKind}
    (h : Lexeme.next? cs = some (.token kind text, rest)) : ¬Vacant cs := by
  intro hvacant
  cases hvacant with
  | nil => cases h
  | lineBreak hnext => cases hnext.symm.trans h
  | gap hnext => cases hnext.symm.trans h

/-- A text whose first line begins with a token. -/
theorem not_hollow_of_token {cs text rest : List Char} {kind : TokenKind}
    (hline : isBlankLine (cs.dropWhile isIndent) = false)
    (h : Lexeme.next? (cs.dropWhile isIndent) = some (.token kind text, rest)) : ¬Hollow cs := by
  rintro (⟨-, hvacant⟩ | ⟨hblank, -, -⟩)
  · exact not_vacant_of_token h hvacant
  · cases hblank.symm.trans hline

namespace Reader

variable {blocks : List Nat} {line : Nat} {cs rest : List Char} {r entered : Reader}
  {layout tokens : List Token}

/-- After the indentation of a line reading goes on inside it. -/
theorem tokens_of_enterLine (hline : r.enterLine = .ok (layout, entered))
    (hstart : entered.atLineStart = false) (hne : entered.rest ≠ []) :
    r.tokens = entered.tokens.map (layout ++ ·) := by
  have hne' := ne_nil_of_enterLine hline hne
  have hstep := step_of_enterLine hline hstart
  cases hstep' : entered.step with
  | error e =>
    rw [hstep'] at hstep
    rw [tokens_of_step_eq_error hne' hstep, tokens_of_step_eq_error hne hstep']
    rfl
  | ok s =>
    obtain ⟨found, next⟩ := s
    rw [hstep'] at hstep
    rw [tokens_eq_of_step hne' hstep, tokens_eq_of_step hne hstep', id]
    cases next.tokens with
    | error e => rfl
    | ok more => exact congrArg Except.ok (List.append_assoc ..)

/-- The place after the indentation of a line. -/
def afterIndent (line : Nat) (cs : List Char) : Position :=
  Position.advance ⟨line, 1⟩ (cs.takeWhile isIndent)

theorem line_afterIndent (line : Nat) (cs : List Char) : (afterIndent line cs).line = line := by
  refine Position.line_advance _ fun hmem => ?_
  have hindent := List.all_eq_true.1 (List.all_takeWhile (p := isIndent) (l := cs)) '\n' hmem
  cases hindent

/-- The reader after the indentation of a line. -/
theorem enterLine_atLine_eq (blocks : List Nat) (line : Nat) (cs : List Char) :
    (atLine blocks line cs).enterLine = if isBlankLine (cs.dropWhile isIndent) then
        .ok ([], inside blocks (afterIndent line cs) 0 true (cs.dropWhile isIndent))
      else (inside blocks (afterIndent line cs) 0 true (cs.dropWhile isIndent)).enterBlock
        (indentWidth (cs.takeWhile isIndent)) := rfl

theorem dropWhile_dropWhile_isIndent (cs : List Char) :
    (cs.dropWhile isIndent).dropWhile (· != '\n') = cs.dropWhile (· != '\n') := by
  conv_rhs => rw [← List.takeWhile_append_dropWhile (p := isIndent) (l := cs)]
  rw [List.dropWhile_append_of_pos]
  intro c hc
  have hindent := List.all_eq_true.1 (List.all_takeWhile (p := isIndent) (l := cs)) c hc
  rw [bne_iff_ne]
  rintro rfl
  cases hindent

/-- A line without tokens is passed over with its line break. -/
theorem reads_blankLine (hblank : isBlankLine (cs.dropWhile isIndent) = true)
    (hrest : cs.dropWhile (· != '\n') = '\n' :: rest) :
    (atLine blocks line cs).Reads [] (atLine blocks (line + 1) rest) := by
  obtain ⟨here, rfl, henter⟩ : ∃ here : Position, here.line = line ∧
      (atLine blocks line cs).enterLine =
        .ok ([], inside blocks here 0 true (cs.dropWhile isIndent)) :=
    ⟨afterIndent line cs, line_afterIndent line cs, if_pos hblank⟩
  rw [← dropWhile_dropWhile_isIndent] at hrest
  have hreads : (inside blocks here 0 true (cs.dropWhile isIndent)).Reads []
      (atLine blocks (here.line + 1) rest) := by
    generalize cs.dropWhile isIndent = left at hblank hrest
    unfold isBlankLine at hblank
    -- a blank line is a line break, one with a carriage return, or a comment
    split at hblank
    · cases hrest
    · obtain ⟨-, rfl⟩ := List.cons.inj hrest
      exact .single (List.cons_ne_nil _ _) step_lineBreak
    · rename_i more
      obtain rfl : more = rest := (List.cons.inj hrest).2
      have hstep := step_of_next? (r := inside blocks here 0 true ('\r' :: '\n' :: more)) rfl
        (Lexeme.next?_return more)
      exact .single (List.cons_ne_nil _ _) hstep
    · rename_i more
      have hrest : more.dropWhile (· != '\n') = '\n' :: rest := hrest
      have hnext := Lexeme.next?_comment more
      rw [hrest] at hnext
      have hstep := step_of_next? (r := inside blocks here 0 true ('#' :: more)) rfl hnext
      have hline : (here.advance ('#' :: more.takeWhile (· != '\n'))).line = here.line := by
        refine here.line_advance fun hmem => ?_
        obtain hmem | hmem := List.mem_cons.1 hmem
        · cases hmem
        · have hcomment := List.all_eq_true.1 (List.all_takeWhile (p := (· != '\n'))) '\n' hmem
          cases hcomment
      have hbreak : (inside blocks (here.advance ('#' :: more.takeWhile (· != '\n'))) 0 true
          ('\n' :: rest)).Reads [] _ := .single (List.cons_ne_nil _ _) step_lineBreak
      rw [hline] at hbreak
      exact .step (List.cons_ne_nil _ _) hstep hbreak
    · cases hblank
  -- a line break is taken, so that the text gets shorter
  refine hreads.of_enterLine henter rfl fun hsame => ?_
  have hle := (List.dropWhile_suffix (· != '\n') (l := cs.dropWhile isIndent)).length_le
  have hlength : rest.length = (cs.dropWhile isIndent).length := congrArg List.length hsame
  rw [hrest, List.length_cons, hlength] at hle
  omega

theorem tokens_of_blankLine (hblank : isBlankLine (cs.dropWhile isIndent) = true)
    (hrest : cs.dropWhile (· != '\n') = '\n' :: rest) :
    (atLine blocks line cs).tokens = (atLine blocks (line + 1) rest).tokens := by
  rw [(reads_blankLine hblank hrest).tokens_eq]
  exact congrFun Except.map_id _

/-! ## The first line that is not blank -/

/-- Inside a line that can be read stands a lexeme. -/
theorem exists_next?_of_tokens (h : r.tokens = .ok tokens) (hstart : r.atLineStart = false)
    (hne : r.rest ≠ []) : ∃ l rest, Lexeme.next? r.rest = some (l, rest) := by
  cases hstep : r.step with
  | error e => cases (tokens_of_step_eq_error hne hstep).symm.trans h
  | ok s =>
    obtain ⟨layout, entered, taken, hline, hlexeme, -⟩ := step_eq_ok_iff.1 hstep
    rw [enterLine_of_atLineStart hstart] at hline
    cases hline
    obtain ⟨l, rest, hnext, -⟩ | ⟨hnil, -⟩ := lexeme_eq_ok.1 hlexeme
    · exact ⟨l, rest, hnext⟩
    · exact absurd hnil hne

/-- In a line with a token it does not matter whether a line was open before. -/
theorem tokens_inside_eq (hvacant : ¬Vacant cs) {here : Position} {between : Bool}
    (h : (inside [] here 0 between cs).tokens = .ok tokens) (between' : Bool) :
    (inside [] here 0 between' cs).tokens = .ok tokens := by
  induction hn : cs.length using Nat.strong_induction_on generalizing cs here tokens with
  | _ n ih =>
  subst hn
  have hne : cs ≠ [] := by
    rintro rfl
    exact hvacant .nil
  obtain ⟨l, rest, hnext⟩ := exists_next?_of_tokens h rfl hne
  have hnext : Lexeme.next? cs = some (l, rest) := hnext
  have hstep := step_of_next? (r := inside [] here 0 between cs) rfl hnext
  have hstep' := step_of_next? (r := inside [] here 0 between' cs) rfl hnext
  rw [tokens_eq_of_step hne hstep] at h
  rw [tokens_eq_of_step hne hstep']
  cases l with
  | lineBreak text => exact absurd (.lineBreak hnext) hvacant
  | gap text =>
    obtain ⟨others, hothers, rfl⟩ := Results.map_eq_ok.1 h
    have hless : rest.length < cs.length := Lexeme.length_lt_of_next? hnext
    have hmore := ih _ hless (fun h => hvacant (.gap hnext h)) hothers rfl
    exact Results.map_eq_ok.2 ⟨others, hmore, rfl⟩
  | token kind text =>
    -- a line is open after the token in any case
    exact h

theorem dropWhile_eq_nil_of_isIndent (hrest : cs.dropWhile (· != '\n') = []) :
    (cs.dropWhile isIndent).dropWhile (· != '\n') = [] := by
  rw [dropWhile_dropWhile_isIndent, hrest]

/-- A last line without tokens is passed over. -/
theorem exists_tokens_of_lastBlankLine (line : Nat)
    (hblank : isBlankLine (cs.dropWhile isIndent) = true)
    (hrest : cs.dropWhile (· != '\n') = []) : ∃ here : Position, ∀ blocks,
      (atLine blocks line cs).tokens = .ok (inside blocks here 0 true []).finish := by
  have henter (blocks : List Nat) : (atLine blocks line cs).enterLine =
      .ok ([], inside blocks (afterIndent line cs) 0 true (cs.dropWhile isIndent)) := if_pos hblank
  have hleft := dropWhile_eq_nil_of_isIndent hrest
  generalize cs.dropWhile isIndent = left at hblank henter hleft
  generalize afterIndent line cs = here at henter
  unfold isBlankLine at hblank
  -- blanks up to the end, or a comment; the other blank lines have a line break
  split at hblank
  · by_cases hne : cs = []
    · subst hne
      exact ⟨⟨line, 1⟩, fun blocks => tokens_of_rest_eq_nil rfl⟩
    · refine ⟨here, fun blocks => ?_⟩
      rw [tokens_eq_of_step hne (step_eq_ok (henter blocks) rfl), tokens_of_rest_eq_nil rfl]
      rfl
  · cases hleft
  · cases hleft
  · rename_i more
    have hmore : more.dropWhile (· != '\n') = [] := hleft
    have hnext := Lexeme.next?_comment more
    rw [hmore] at hnext
    refine ⟨here.advance ('#' :: more.takeWhile (· != '\n')), fun blocks => ?_⟩
    have hstep := step_of_next? (r := inside blocks here 0 true ('#' :: more)) rfl hnext
    rw [tokens_of_enterLine (henter blocks) rfl (List.cons_ne_nil _ _),
      tokens_eq_of_step (List.cons_ne_nil _ _) hstep, tokens_of_rest_eq_nil rfl]
    rfl
  · cases hblank

theorem map_shape_of_mark {found : List Token} {kind : TokenKind} {n : Nat}
    (h : found.map Token.mark = List.replicate n (.layout kind)) (hkind : kind.isLayout = true) :
    found.map Token.shape = List.replicate n (kind, "") := by
  obtain ⟨hlength, hmarks⟩ := List.eq_replicate_iff.1 h
  rw [List.length_map] at hlength
  refine List.eq_replicate_iff.2 ⟨by rw [List.length_map, hlength], ?_⟩
  rw [List.forall_mem_map] at hmarks ⊢
  intro t ht
  have htoken : t.kind = kind := by
    rw [← t.kind_mark, hmarks t ht]
    rfl
  rw [Token.shape, htoken, if_pos hkind]

/-- A text whose first token opens no block begins at the left margin. So a line that is no blank
line closes all blocks before it. -/
theorem exists_closed_of_line (hblank : isBlankLine (cs.dropWhile isIndent) = false)
    (h : (atLine [] line cs).tokens = .ok tokens) (hindent : ∀ t ∈ tokens.head?, t.kind ≠ .indent)
    (hblocks : ∀ b ∈ blocks, 0 < b) : ∃ here : Position,
      (inside [] here 0 true (cs.dropWhile isIndent)).tokens = .ok tokens ∧
      ∃ closed, closed.map Token.shape = List.replicate blocks.length (.dedent, "") ∧
        (atLine blocks line cs).tokens =
          (inside [] here 0 blocks.isEmpty (cs.dropWhile isIndent)).tokens.map (closed ++ ·) := by
  have hne : cs.dropWhile isIndent ≠ [] := fun hnil => by
    rw [hnil] at hblank
    cases hblank
  have henter := enterLine_atLine_eq [] line cs
  have henter' := enterLine_atLine_eq blocks line cs
  rw [if_neg (Bool.eq_false_iff.1 hblank)] at henter henter'
  generalize indentWidth (cs.takeWhile isIndent) = width at henter henter'
  generalize cs.dropWhile isIndent = left at *
  generalize afterIndent line cs = here at *
  by_cases hwidth : 0 < width
  · -- an indented text begins with the beginning of a block
    obtain ⟨found, hfound, hblock⟩ := exists_enterBlock_eq
      (.opens (show ([] : List Nat).headD 0 < width from hwidth)) here left
    rw [hblock] at henter
    rw [tokens_of_enterLine henter rfl hne] at h
    obtain ⟨others, -, rfl⟩ := Results.map_eq_ok.1 h
    obtain ⟨t, rfl, ht⟩ := List.map_eq_singleton_iff.1 hfound
    refine absurd ?_ (hindent t rfl)
    rw [← t.kind_mark, ht]
    rfl
  -- at the left margin the blocks are closed one after the other
  · obtain rfl : width = 0 := by omega
    have hstay : Enters ([] ++ []) 0 (List.replicate 0 .dedent) [] := .closes nofun rfl
    have hclose : Enters (blocks ++ []) 0 (List.replicate blocks.length .dedent) [] :=
      .closes hblocks rfl
    rw [List.append_nil] at hclose
    obtain ⟨found, hfound, hblock⟩ := exists_enterBlock_eq hstay here left
    obtain ⟨closed, hclosed, hblock'⟩ := exists_enterBlock_eq hclose here left
    obtain rfl := List.map_eq_nil_iff.1 hfound
    rw [List.append_nil] at hblock
    rw [hblock] at henter
    rw [hblock', List.isEmpty_replicate] at henter'
    rw [tokens_of_enterLine henter rfl hne] at h
    obtain ⟨others, hothers, rfl⟩ := Results.map_eq_ok.1 h
    rw [List.map_replicate] at hclosed
    refine ⟨here, hothers, closed, map_shape_of_mark hclosed rfl, ?_⟩
    rw [tokens_of_enterLine henter' rfl hne]
    cases blocks <;> rfl

/-- A text that begins where blocks are open has the same tokens as where none are, after the ends
of the blocks. -/
theorem exists_tokens_after_blocks (hblocks : ∀ b ∈ blocks, 0 < b)
    (h : (atLine [] line cs).tokens = .ok tokens) (hhollow : ¬Hollow cs)
    (hindent : ∀ t ∈ tokens.head?, t.kind ≠ .indent) :
    ∃ closed, (atLine blocks line cs).tokens = .ok (closed ++ tokens) ∧
      closed.map Token.shape = List.replicate blocks.length (.dedent, "") := by
  -- by induction on the length: blank lines are passed over up to the first line with a token
  induction hn : cs.length using Nat.strong_induction_on generalizing cs line with
  | _ n ih =>
  subst hn
  by_cases hblank : isBlankLine (cs.dropWhile isIndent) = true
  · cases hcs : cs.dropWhile (· != '\n') with
    | nil =>
      obtain ⟨here, hlast⟩ := exists_tokens_of_lastBlankLine line hblank hcs
      rw [hlast] at h
      obtain rfl := Except.ok.inj h
      refine ⟨blocks.map fun _ => (inside blocks here 0 true []).marker .dedent, ?_, ?_⟩
      · rw [hlast]
        rfl
      · rw [List.map_map, ← List.map_const']
        rfl
    | cons c rest =>
      have hc := List.head?_dropWhile_not (· != '\n') cs
      rw [hcs] at hc
      obtain rfl : c = '\n' := by simpa using hc
      have hless : rest.length < cs.length := by
        have hle := (List.dropWhile_suffix (· != '\n') (l := cs)).length_le
        rw [hcs, List.length_cons] at hle
        omega
      rw [tokens_of_blankLine hblank hcs] at h ⊢
      exact ih _ hless h (fun hmore => hhollow (.blank hblank hcs hmore)) rfl
  · have hvacant : ¬Vacant (cs.dropWhile isIndent) :=
      fun hvacant => hhollow (.line (Bool.eq_false_iff.2 hblank) hvacant)
    obtain ⟨here, hinside, closed, hclosed, htokens⟩ :=
      exists_closed_of_line (Bool.eq_false_iff.2 hblank) h hindent hblocks
    refine ⟨closed, ?_, hclosed⟩
    rw [htokens, tokens_inside_eq hvacant hinside]
    rfl

/-! ## A first line without a token -/

/-- The end of a line that is open is found, whatever gaps stand before it. -/
theorem exists_newline_of_vacant (hvacant : Vacant cs) {here : Position}
    (h : (inside [] here 0 false cs).tokens = .ok tokens) :
    ∃ t others, tokens = t :: others ∧ t.kind = .newline := by
  induction hvacant generalizing here tokens with
  | nil =>
    rw [tokens_of_rest_eq_nil rfl] at h
    obtain rfl := Except.ok.inj h
    exact ⟨_, _, rfl, rfl⟩
  | lineBreak hnext =>
    rw [tokens_eq_of_step (ne_nil_of_next? hnext) (step_of_next? rfl hnext)] at h
    obtain ⟨others, -, rfl⟩ := Results.map_eq_ok.1 h
    exact ⟨_, _, rfl, rfl⟩
  | gap hnext _ ih =>
    rw [tokens_eq_of_step (ne_nil_of_next? hnext) (step_of_next? rfl hnext)] at h
    obtain ⟨others, hothers, rfl⟩ := Results.map_eq_ok.1 h
    exact ih hothers

/-- Where blocks end before a line without a token, the end of that line is found by itself. -/
theorem exists_newline_of_hollow (hhollow : Hollow cs) (hblocks : ∀ b ∈ blocks, 0 < b)
    (hne : blocks ≠ []) (h : (atLine [] line cs).tokens = .ok tokens)
    (hindent : ∀ t ∈ tokens.head?, t.kind ≠ .indent) {tokens' : List Token}
    (h' : (atLine blocks line cs).tokens = .ok tokens') :
    ∃ closed t others, tokens' = closed ++ t :: others ∧
      closed.map Token.shape = List.replicate blocks.length (.dedent, "") ∧ t.kind = .newline := by
  induction hhollow generalizing line with
  | @line cs hblank hvacant =>
    obtain ⟨here, -, closed, hclosed, htokens⟩ := exists_closed_of_line hblank h hindent hblocks
    rw [htokens, List.isEmpty_eq_false_iff.2 hne] at h'
    obtain ⟨others, hothers, rfl⟩ := Results.map_eq_ok.1 h'
    obtain ⟨t, more, rfl, ht⟩ := exists_newline_of_vacant hvacant hothers
    exact ⟨closed, t, more, rfl, hclosed, ht⟩
  | @blank cs rest hblank hcs _ ih =>
    rw [tokens_of_blankLine hblank hcs] at h h'
    exact ih h h'

end Reader

end NoteCheck.Code
