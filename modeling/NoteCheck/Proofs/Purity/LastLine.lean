/-
# Violations after the last line

Violations stand on the lines of a text, but for one: an error in the order of the tokens that is
found only at the end of the text stands where the text ends, which is after its last line. The main
statement, `line_le_iff_of_unlines`, is about all texts of lines.
-/
import NoteCheck.Note.Block
import NoteCheck.Proofs.Layout.Inside
import NoteCheck.Proofs.Purity.TokenLines

namespace NoteCheck.Code

open Position (Inside)

/-- What is found in a text stands at a place inside it, or is an error at its end. -/
theorem Purity.inside_or_end_of_findings {code : String} : ∀ found ∈ findings code,
    (∃ p, Inside code.toList p ∧ found.1 = p.line) ∨
      ∃ e, parse code = .error e ∧ e.position = .after code.toList ∧ found.1 = e.position.line := by
  cases htokens : tokenize code with
  | error e =>
    have hparse : parse code = .error e := by
      rw [parse, htokens]
      rfl
    rw [findings, hparse]
    exact List.forall_mem_singleton.2 (.inl ⟨e.position, inside_of_tokenize_error htokens, rfl⟩)
  | ok tokens =>
    obtain ⟨lines, stop, rfl, hlined, hstop⟩ := exists_lined_of_tokenize htokens
    have hinside := inside_or_end_of_tokenize htokens
    cases hparse : parse code with
    | error e =>
      have herror := hparse
      rw [parse, htokens] at herror
      obtain ⟨t, ht, hposition⟩ := exists_token_of_parseTokens (by simpa using hstop) herror
      rw [findings, hparse]
      refine List.forall_mem_singleton.2 ?_
      -- a parse error stands at a token, which is inside the text or finishes it
      obtain hin | ⟨-, hend⟩ := hinside t ht
      · exact .inl ⟨t.span.start, hin, congrArg Position.line hposition⟩
      · exact .inr ⟨e, rfl, hposition.trans hend, rfl⟩
    | ok body =>
      rw [findings, hparse]
      intro found hfound
      refine .inl (forall_line (P := fun line => ∃ p, Inside code.toList p ∧ line = p.line) htokens
        hparse (fun t ht hlayout => ?_) found hfound)
      obtain hin | ⟨hlayout' | hend, -⟩ := hinside t (List.mem_append_left _ ht)
      · exact ⟨t.span.start, hin, rfl⟩
      · cases hlayout.symm.trans hlayout'
      · exact absurd hend (hlined.inside t ht)

/-- The violations of a text of lines stand on its lines or on the one after them, and on its lines
exactly if the text is not found to be out of order only at its end. -/
theorem line_le_iff_of_unlines {lines : List (List Char)} (hlines : ∀ line ∈ lines, '\n' ∉ line)
    (source : String) :
    let code := String.ofList (Text.unlines lines)
    (∀ v ∈ violations code source, 1 ≤ v.line ∧ v.line ≤ lines.length + 1) ∧
      ((∀ v ∈ violations code source, v.line ≤ lines.length) ↔
        ∀ e, parse code = .error e → e.position ≠ .after code.toList) := by
  intro code
  have hcode : code.toList = Text.unlines lines := String.toList_ofList
  have hend : (Position.after code.toList).line = lines.length + 1 := by
    rw [hcode, Position.line_after_unlines hlines]
  -- a violation stands where a token does, or where the text stops being read
  have hviolation : ∀ v ∈ violations code source, (1 ≤ v.line ∧ v.line ≤ lines.length) ∨
      v.line = lines.length + 1 ∧ ∃ e, parse code = .error e ∧ e.position = .after code.toList := by
    refine List.forall_mem_map.2 fun found hmem => ?_
    obtain ⟨p, hin, hline⟩ | ⟨e, hparse, hposition, hline⟩ :=
      Purity.inside_or_end_of_findings found hmem
    · refine .inl ?_
      show 1 ≤ found.1 ∧ found.1 ≤ lines.length
      rw [hline]
      exact ⟨hin.one_le_line, (hcode ▸ hin).line_le hlines⟩
    · refine .inr ⟨?_, e, hparse, hposition⟩
      show found.1 = lines.length + 1
      rw [hline, hposition, hend]
  refine ⟨fun v hv => ?_, fun hall e hparse hposition => ?_, fun hparse v hv => ?_⟩
  · obtain ⟨hle, hge⟩ | ⟨hlast, -⟩ := hviolation v hv
    · exact ⟨hle, Nat.le_succ_of_le hge⟩
    · rw [hlast]
      exact ⟨Nat.succ_pos _, le_rfl⟩
  · have hlast : e.position.line ≤ lines.length := hall ⟨source, _, .unreadable e.fault⟩ (by
      rw [violations, Purity.findings, hparse]
      exact List.mem_cons_self)
    rw [hposition, hend] at hlast
    exact Nat.not_succ_le_self _ hlast
  · obtain ⟨-, hle⟩ | ⟨-, e, herror, hposition⟩ := hviolation v hv
    · exact hle
    · exact absurd hposition (hparse e herror)

/-- A list that goes on to the next line is not allowed, and so is the second operator. -/
theorem line_le_iff_of_unlines_list :
    let lines := ["def f(x):".toList, "    y = [x,".toList, "        x]".toList,
      "    return x % 2".toList]
    let code := String.ofList (Text.unlines lines)
    (∀ line ∈ lines, '\n' ∉ line) ∧ (violations code "notes.md").map Violation.line = [2, 4] ∧
      (∀ v ∈ violations code "notes.md", 1 ≤ v.line ∧ v.line ≤ lines.length + 1) ∧
      ((∀ v ∈ violations code "notes.md", v.line ≤ lines.length) ↔
        ∀ e, parse code = .error e → e.position ≠ .after code.toList) := by
  intro lines code
  have hlines : ∀ line ∈ lines, '\n' ∉ line := by decide
  exact ⟨hlines, by decide +kernel, line_le_iff_of_unlines hlines "notes.md"⟩

/-- A function without a body is on one line, and what is wrong with it is said of the next one. -/
theorem not_line_le_of_extractBlock : ¬∀ text heading source, ∀ v ∈
    violations (Note.extractBlock text heading).code source,
      1 ≤ v.line ∧ v.line ≤ (Note.extractBlock text heading).code.toList.count '\n' := by
  intro h
  have hcode : (Note.extractBlock "## Lambda\n```\ndef f(x):\n```\n" "## Lambda").code =
      "def f(x):\n" := by
    decide +kernel
  have hviolations : violations "def f(x):\n" "notes.md" =
      [⟨"notes.md", 2, .unreadable (.unexpected "EOF")⟩] := by
    decide +kernel
  have hlast := h "## Lambda\n```\ndef f(x):\n```\n" "## Lambda" "notes.md"
  rw [hcode, hviolations] at hlast
  exact absurd (hlast _ List.mem_cons_self).2 (by decide)

end NoteCheck.Code
