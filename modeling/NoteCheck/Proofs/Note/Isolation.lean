/-
# A section among other lines

A section is found by the line that introduces it, and its end by the next heading that ends it.
Between the two only its own lines count: fences that are closed within it keep the headings
between them from ending it. The main statement, `sectionLines?_eq_of_enclosed`: two notes that
have the same section have nothing else in common for whoever reads the section.
-/
import NoteCheck.Proofs.Note.Block
import NoteCheck.Signature.Operation

namespace NoteCheck.Note

open Text Signature

variable {level : Option Nat} {opening line : List Char} {body after : List (List Char)}

/-! ## The end of a section -/

/-- A heading is no fence. -/
theorem fence?_eq_none_of_headingLevel {found : Nat} (h : headingLevel line = some found) :
    fence? line = none := by
  rw [headingLevel] at h
  rw [fence?]
  cases hstart : trimStart line with
  | nil => rfl
  | cons c rest =>
    have hmark : c = '#' := by
      by_contra hother
      rw [hstart, List.takeWhile_cons_of_neg (by simpa using hother)] at h
      cases h
    subst hmark
    exact if_neg fun hfence => absurd hfence.1 (by decide)

/-- A heading that is not below the level is the end. -/
theorem untilHeading_of_ends (h : ∀ line ∈ after.head?, Ends level line) :
    untilHeading level none after = [] := by
  cases after with
  | nil => rfl
  | cons line after =>
    obtain ⟨found, hfound, hlevel⟩ := h line rfl
    rw [untilHeading, fence?_eq_none_of_headingLevel hfound]
    exact if_pos (any_headingLevel_iff.2 ⟨found, hfound, hlevel⟩)

/-- Lines that do not end a section: every fence among them is closed by one that begins with the
same marks, and every heading outside the fences is below the level. -/
inductive Enclosed (level : Option Nat) : List (List Char) → Prop
  | nil : Enclosed level []
  | plain {line rest} : fence? line = none → ¬Ends level line → Enclosed level rest →
      Enclosed level (line :: rest)
  | fenced {opener opening inside closer marks rest} : fence? opener = some opening →
      StaysOpen opening inside → fence? closer = some marks → opening <+: marks →
      Enclosed level rest → Enclosed level (opener :: (inside ++ closer :: rest))

/-- Lines that are neither fences nor headings do not end a section. -/
theorem Enclosed.of_forall (h : ∀ line ∈ body, fence? line = none ∧ headingLevel line = none) :
    Enclosed level body := by
  induction body with
  | nil => exact .nil
  | cons line body ih =>
    obtain ⟨⟨hfence, hlevel⟩, hmore⟩ := List.forall_mem_cons.1 h
    exact .plain hfence (not_ends_of_headingLevel_eq_none hlevel) (ih hmore)

theorem any_closes_of_longer {closer marks : List Char} (h : fence? closer = some marks)
    (hmarks : opening <+: marks) : (fence? closer).any (closes opening) = true := by
  rw [h]
  exact List.isPrefixOf_iff_prefix.2 hmarks

/-- The scan for the end goes through such lines, and comes out with no fence open. -/
theorem Enclosed.untilHeading_append (h : Enclosed level body) (rest : List (List Char)) :
    untilHeading level none (body ++ rest) = body ++ untilHeading level none rest := by
  induction h with
  | nil => rfl
  | plain hfence hends _ ih =>
    rw [List.cons_append, untilHeading, hfence]
    dsimp only
    rw [if_neg (any_headingLevel_iff.not.2 hends), ih, List.cons_append]
  | fenced hopener hopen hcloser hmarks _ ih =>
    rw [List.cons_append, List.append_assoc, List.cons_append, untilHeading, hopener]
    dsimp only
    rw [untilHeading_fenced hopen (any_closes_of_longer hcloser hmarks), ih, List.cons_append,
      List.append_assoc, List.cons_append]

/-! ## Notes with a section -/

/-- The lines of a note: those before the one that introduces a section, this one, those of the
section, and those after it. -/
structure SectionNote where
  before : List (List Char)
  heading : List Char
  body : List (List Char)
  after : List (List Char)

namespace SectionNote

/-- All lines of a note. -/
def lines (note : SectionNote) : List (List Char) :=
  note.before ++ note.heading :: (note.body ++ note.after)

/-- The line that introduces the section is the first that begins with the marker, and what comes
after the section, if anything does, begins with a heading that ends it. -/
structure IsDivided (note : SectionNote) (marker : List Char) : Prop where
  before : ∀ line ∈ note.before, ¬trim marker <+: trim line
  heading : trim marker <+: trim note.heading
  after : ∀ line ∈ note.after.head?, Ends (headingLevel marker) line

instance (note : SectionNote) (marker : List Char) : Decidable (note.IsDivided marker) :=
  decidable_of_iff
    ((∀ line ∈ note.before, ¬trim marker <+: trim line) ∧ trim marker <+: trim note.heading ∧
      ∀ line ∈ note.after.head?, Ends (headingLevel marker) line)
    ⟨fun h => ⟨h.1, h.2.1, h.2.2⟩, fun h => ⟨h.before, h.heading, h.after⟩⟩

variable {note note' : SectionNote} {marker text text' : String}

/-- The section holds its lines, and no others. -/
theorem IsDivided.sectionLines?_eq (h : note.IsDivided marker.toList)
    (hbody : Enclosed (headingLevel marker.toList) note.body)
    (htext : Text.lines text.toList = note.lines) :
    sectionLines? text.toList marker.toList = some note.body := by
  rw [sectionLines?, htext, lines, afterMarker?_append h.before h.heading, headingLevel_trim,
    Option.map_some, hbody.untilHeading_append, untilHeading_of_ends h.after, List.append_nil]

/-- Other lines of a section do not change where it stands. -/
theorem IsDivided.withBody {marker : List Char} (h : note.IsDivided marker)
    (body : List (List Char)) : ({ note with body := body } : SectionNote).IsDivided marker :=
  ⟨h.before, h.heading, h.after⟩

/-- What a note declares is what the lines of its section declare. -/
theorem IsDivided.readDeclarations_eq (h : note.IsDivided marker.toList)
    (hbody : Enclosed (headingLevel marker.toList) note.body)
    (htext : Text.lines text.toList = note.lines) :
    readDeclarations text marker = Declarations.ofLines note.body := by
  rw [readDeclarations, h.sectionLines?_eq hbody htext, Option.getD_some]

/-- Whatever stands before the heading of a section and after its end, the section holds the same
lines, declares the same operations and has the same block. -/
theorem sectionLines?_eq_of_enclosed (hbody : Enclosed (headingLevel marker.toList) note.body)
    (hsame : note'.body = note.body) (h : note.IsDivided marker.toList)
    (h' : note'.IsDivided marker.toList) (htext : Text.lines text.toList = note.lines)
    (htext' : Text.lines text'.toList = note'.lines) :
    sectionLines? text.toList marker.toList = some note.body ∧
      sectionLines? text'.toList marker.toList = some note.body ∧
      readDeclarations text marker = readDeclarations text' marker ∧
      extractBlock text marker = extractBlock text' marker := by
  have hsection := h.sectionLines?_eq hbody htext
  have hsection' := h'.sectionLines?_eq (hsame ▸ hbody) htext'
  rw [hsame] at hsection'
  refine ⟨hsection, hsection', ?_, ?_⟩
  · rw [readDeclarations, readDeclarations, hsection, hsection']
  · rw [extractBlock, extractBlock, hsection, hsection']

/-- A section with headings in fences and a fence in another, in a note with more of the kind, and
in one with another heading and without a line break at its end. -/
theorem sectionLines?_eq_of_enclosed_nested :
    let note : SectionNote := {
      before := ["# Note".toList, "```".toList]
      heading := "## Ops (draft)".toList
      body := ["### Details".toList, "````md".toList, "# Title".toList, "```".toList,
        "`````".toList, "`paint: Grid -> Grid`".toList]
      after := ["## Next".toList, "## Ops".toList, "`paint: Grid -> Row`".toList] }
    let note' : SectionNote :=
      { note with before := [], heading := "  ## Ops".toList, after := ["# End".toList] }
    let text := "# Note\r\n```\n## Ops (draft)\n### Details\n````md\r\n# Title\n```\n`````\n" ++
      "`paint: Grid -> Grid`\n## Next\n## Ops\n`paint: Grid -> Row`\n"
    let text' := "  ## Ops\n### Details\n````md\n# Title\n```\n`````\n`paint: Grid -> Grid`\n# End"
    Enclosed (headingLevel "## Ops".toList) note.body ∧ note.IsDivided "## Ops".toList ∧
      note'.IsDivided "## Ops".toList ∧ Text.lines text.toList = note.lines ∧
      Text.lines text'.toList = note'.lines ∧
      sectionLines? text.toList "## Ops".toList = some note.body ∧
      readDeclarations text "## Ops" = readDeclarations text' "## Ops" ∧
      extractBlock text "## Ops" = extractBlock text' "## Ops" := by
  intro note note' text text'
  have hopener : fence? "````md".toList = some "````".toList := by decide +kernel
  have hcloser : fence? "`````".toList = some "`````".toList := by decide +kernel
  have hopen : StaysOpen "````".toList ["# Title".toList, "```".toList] :=
    staysOpen_iff.2 (by decide +kernel)
  have hbody : Enclosed (headingLevel "## Ops".toList) note.body :=
    .plain (by decide +kernel) (by decide +kernel) (.fenced hopener hopen hcloser (by decide)
      (.plain (by decide +kernel) (by decide +kernel) .nil))
  have hdivided : note.IsDivided "## Ops".toList := by decide +kernel
  have hdivided' : note'.IsDivided "## Ops".toList := by decide +kernel
  have htext : Text.lines text.toList = note.lines := by decide +kernel
  have htext' : Text.lines text'.toList = note'.lines := by decide +kernel
  obtain ⟨hsection, -, hdeclared, hblock⟩ :=
    sectionLines?_eq_of_enclosed hbody
      (show note'.body = note.body from rfl) hdivided hdivided' htext
      htext'
  exact ⟨hbody, hdivided, hdivided', htext, htext', hsection, hdeclared, hblock⟩

end SectionNote

end NoteCheck.Note
