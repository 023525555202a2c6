/-
# What a section holds

A section begins after the first line that begins with its marker. The main statement,
`sectionLines?_unlines`: lines that are neither headings nor fences are all in the section.
-/
import NoteCheck.Note.Section
import NoteCheck.Proofs.Text.Pieces

namespace NoteCheck.Note

open Text

/-- The lines after the first one that begins with the marker, whatever the carriage returns. -/
theorem afterMarker?_unlines {marker heading : List Char} {before : List (List Char)}
    (hbefore : ∀ line ∈ before, '\n' ∉ line ∧ ¬marker <+: trim line) (hline : '\n' ∉ heading)
    (hheading : marker <+: trim heading) (rest : List Char) :
    afterMarker? marker (lines (unlines before ++ (heading ++ '\n' :: rest))) =
      some (lines rest) := by
  have hshown : ∀ {line shown : List Char}, shown = line ∨ line = shown ++ ['\r'] →
      trim shown = trim line := by
    rintro line shown (rfl | rfl)
    · rfl
    · rw [trim_append_return]
  induction before with
  | nil =>
    obtain ⟨shown, hlines, hsame⟩ := exists_lines_append hline rest
    rw [unlines_nil, List.nil_append, hlines, afterMarker?, if_pos]
    rwa [hshown hsame, List.isPrefixOf_iff_prefix]
  | cons line before ih =>
    obtain ⟨⟨hbreak, hmarker⟩, hrest⟩ := List.forall_mem_cons.1 hbefore
    obtain ⟨shown, hlines, hsame⟩ := exists_lines_append hbreak
      (unlines before ++ (heading ++ '\n' :: rest))
    rw [unlines_cons, List.append_assoc, List.cons_append, hlines, afterMarker?, if_neg]
    · exact ih hrest
    · rwa [hshown hsame, List.isPrefixOf_iff_prefix]

/-- A heading ends a section of a level unless it is below the level. No level is below all. -/
def Ends (level : Option Nat) (line : List Char) : Prop :=
  ∃ found, headingLevel line = some found ∧ ∀ n, level = some n → found ≤ n

theorem any_headingLevel_iff {level : Option Nat} {line : List Char} :
    ((headingLevel line).any fun found => level.all (found ≤ ·)) = true ↔ Ends level line := by
  simp [Ends, Option.any_eq_true, Option.all_eq_true]

instance (level : Option Nat) (line : List Char) : Decidable (Ends level line) :=
  decidable_of_iff _ any_headingLevel_iff

theorem not_ends_some_iff {n : Nat} {line : List Char} :
    ¬Ends (some n) line ↔ ∀ found, headingLevel line = some found → n < found := by
  simp [Ends]

theorem not_ends_of_headingLevel_eq_none {level : Option Nat} {line : List Char}
    (h : headingLevel line = none) : ¬Ends level line := by
  rintro ⟨found, hfound, -⟩
  cases h.symm.trans hfound

/-- Lines that are neither headings nor fences do not end a section. -/
theorem untilHeading_of_forall {level : Option Nat} {body : List (List Char)}
    (h : ∀ line ∈ body, fence? line = none ∧ headingLevel line = none) :
    untilHeading level none body = body := by
  induction body with
  | nil => rfl
  | cons line body ih =>
    obtain ⟨⟨hfence, hlevel⟩, hbody⟩ := List.forall_mem_cons.1 h
    rw [untilHeading, hfence, hlevel]
    simp only [Option.any_none, Bool.false_eq_true, if_false]
    rw [ih hbody]

/-- A line that begins with another character than a blank or the mark of headings is none. -/
theorem headingLevel_cons_eq_none {c : Char} (hblank : isBlank c = false) (hmark : c ≠ '#')
    (line : List Char) : headingLevel (c :: line) = none := by
  rw [headingLevel, trimStart, List.dropWhile_cons_of_neg (by simp [hblank])]
  simp [hmark]

/-- The section that a marker introduces holds the lines after it. -/
theorem sectionLines?_unlines {marker : List Char} {before body : List (List Char)}
    (hbefore : ∀ line ∈ before, '\n' ∉ line ∧ ¬trim marker <+: trim line)
    (hmarker : '\n' ∉ marker)
    (hbody : ∀ line ∈ body, ('\n' ∉ line ∧ line.getLast? ≠ some '\r') ∧
      fence? line = none ∧ headingLevel line = none) :
    sectionLines? (unlines (before ++ marker :: body)) marker = some body := by
  rw [sectionLines?, unlines_append, unlines_cons,
    afterMarker?_unlines hbefore hmarker (List.prefix_refl _),
    lines_unlines fun line hline => (hbody line hline).1, Option.map_some,
    untilHeading_of_forall fun line hline => (hbody line hline).2]

end NoteCheck.Note
