/-
# Places inside a text

A place is inside a text if some of the text follows it. In a text of lines such a place is on one
of them, while the end of the text is on a line of its own. The main statements are about where
tokens begin, `inside_or_end_of_tokenize`, and where a text without tokens cannot be read on,
`inside_of_tokenize_error`.
-/
import NoteCheck.Proofs.Layout.Idle
import NoteCheck.Proofs.Text.Pieces

namespace NoteCheck.Code

namespace Position

/-- A place in a text with some of the text after it. -/
def Inside (text : List Char) (p : Position) : Prop :=
  ∃ before rest, text = before ++ rest ∧ rest ≠ [] ∧ p = .after before

variable {text : List Char} {p : Position} {lines : List (List Char)}

/-- A place inside a text of lines is on one of them. -/
theorem Inside.line_le (h : Inside (Text.unlines lines) p)
    (hlines : ∀ line ∈ lines, '\n' ∉ line) : p.line ≤ lines.length := by
  obtain ⟨before, rest, htext, hne, rfl⟩ := h
  -- a line break follows the place
  obtain ⟨others, c, rfl⟩ := (List.eq_nil_or_concat' rest).resolve_left hne
  obtain rfl : c = '\n' := Text.getLast?_unlines lines c (by
    rw [htext, ← List.append_assoc, List.getLast?_concat]
    rfl)
  have hcount := Text.count_unlines hlines
  rw [htext, List.count_append, List.count_append, List.count_singleton_self] at hcount
  show 1 + before.count '\n' ≤ lines.length
  omega

/-- The end of a text of lines is on a line of its own. -/
theorem line_after_unlines (hlines : ∀ line ∈ lines, '\n' ∉ line) :
    (after (Text.unlines lines)).line = lines.length + 1 := by
  rw [after, Text.count_unlines hlines, Nat.add_comm]

theorem one_le_line_after (text : List Char) : 1 ≤ (after text).line := Nat.le_add_right ..

theorem Inside.one_le_line (h : Inside text p) : 1 ≤ p.line := by
  obtain ⟨before, rest, -, -, rfl⟩ := h
  exact one_le_line_after before

end Position

open Position (Inside)

/-! ## Reading on -/

namespace Reader

variable {r next last : Reader} {found : List Token} {before : List Char}

/-- The tokens of a step begin where there is text to read. -/
theorem inside_of_step (hat : r.At before) (h : r.step = .ok (found, next)) :
    ∀ t ∈ found, Inside (before ++ r.rest) t.span.start := by
  obtain ⟨layout, entered, hline, hlexeme⟩ := exists_of_step h
  obtain ⟨-, blanks, -, henter⟩ := advances_of_enterLine hat hline
  obtain ⟨hnil, rfl, -⟩ | ⟨l, hread, rfl, -⟩ := hlexeme
  · rw [nil_of_enterLine hline hnil]
    exact List.forall_mem_nil _
  · have hinside : Inside (before ++ r.rest) entered.here :=
      ⟨before ++ blanks, entered.rest, by rw [henter.rest, List.append_assoc],
        ne_nil_of_next? hread, henter.stands.here⟩
    refine List.forall_mem_append.2 ⟨fun t ht => ?_, fun t ht => ?_⟩
    · obtain rfl | rfl := eq_marker_of_enterLine hline t ht <;> exact hinside
    · rwa [(take_starts entered l next.rest).2 t ht]

/-- What is found on the way begins inside the text. -/
theorem Reads.inside (h : r.Reads found last) : ∀ {before}, r.At before →
    ∀ t ∈ found, Inside (before ++ r.rest) t.span.start := by
  induction h with
  | refl => exact fun _ => List.forall_mem_nil _
  | step _ hstep _ ih =>
    intro before hat
    obtain ⟨piece, _, hfirst⟩ := advances_of_step hat hstep
    refine List.forall_mem_append.2 ⟨inside_of_step hat hstep, fun t ht => ?_⟩
    rw [hfirst.rest, ← List.append_assoc]
    exact ih hfirst.stands t ht

/-- The marks at the end of a text stand at its end. -/
theorem starts_of_finish (r : Reader) : ∀ t ∈ r.finish,
    (t.kind.isLayout = true ∨ t.kind = .endOfFile) ∧ t.span.start = r.here := by
  rw [finish, List.forall_mem_append, List.forall_mem_append]
  refine ⟨⟨?_, List.forall_mem_map.2 fun _ _ => ⟨.inl rfl, rfl⟩⟩,
    List.forall_mem_singleton.2 ⟨.inr rfl, rfl⟩⟩
  split
  · exact List.forall_mem_nil _
  · exact List.forall_mem_singleton.2 ⟨.inl rfl, rfl⟩

end Reader

/-- Where a text cannot be read on there is some text left. -/
theorem Obstacle.ne_nil {before rest : List Char} {fault : SyntaxFault}
    (h : Obstacle before rest fault) : rest ≠ [] := by
  cases h with
  | quote | character => exact List.cons_ne_nil _ _
  | indentation _ _ _ hblank =>
    rintro rfl
    cases hblank

/-! ## Whole texts -/

/-- A token begins inside the text, or it is a mark at the end of the text. -/
theorem inside_or_end_of_tokenize {code : String} {tokens : List Token}
    (h : tokenize code = .ok tokens) : ∀ t ∈ tokens, Inside code.toList t.span.start ∨
      (t.kind.isLayout = true ∨ t.kind = .endOfFile) ∧ t.span.start = .after code.toList := by
  obtain ⟨found, last, hreads, ⟨hnil, hok⟩ | ⟨e, -, hfail⟩⟩ := (Reader.ofText code).exists_reads
  · obtain rfl := Except.ok.inj (h.symm.trans hok)
    obtain ⟨piece, _, hadvances⟩ := hreads.advances (Reader.at_ofText code)
    have hpiece : code.toList = piece := by
      have hrest := hadvances.rest
      rwa [hnil, List.append_nil] at hrest
    refine List.forall_mem_append.2 ⟨fun t ht => .inl ?_, fun t ht => .inr ?_⟩
    · exact hreads.inside (Reader.at_ofText code) t ht
    · obtain ⟨hkind, hstart⟩ := last.starts_of_finish t ht
      refine ⟨hkind, hstart.trans ?_⟩
      rw [hpiece]
      exact hadvances.stands.here
  · cases h.symm.trans hfail

/-- An error of a text that cannot be read on stands inside it. -/
theorem inside_of_tokenize_error {code : String} {e : SyntaxError} (h : tokenize code = .error e) :
    Inside code.toList e.position := by
  obtain ⟨_, _, before, _, rest, _, hcode, -, -, -, -, -, -, hobstacle, hposition⟩ :=
    isStopped_of_tokenize h
  exact ⟨before, rest, hcode, hobstacle.ne_nil, hposition⟩

end NoteCheck.Code
