/-
# The order of declarations

A note declares its operations in a section, and they are kept in the order of their names, so that
the order of the lines makes no difference, as long as no name is declared twice. The main
statement, `inspect_eq_iff_of_perm`: the report on a note stays the same with the lines of the
section in another order, unless the block of the note goes around the section, so that its lines
are code as well.
-/
import NoteCheck.Proofs.Note.Surrounds
import NoteCheck.Proofs.Signature.Characters
import NoteCheck.Proofs.Verification.Report

namespace NoteCheck

namespace Signature.Declarations

variable {operations operations' : List Operation} {lines lines' : List (List Char)}

/-- Where no two operations have one name, each is the last of its name. -/
theorem isLast_iff_mem (h : (operations.map Operation.name).Nodup) {operation : Operation} :
    IsLast operations operation ↔ operation ∈ operations := by
  constructor
  · rintro ⟨before, after, rfl, -⟩
    simp
  · intro hmem
    obtain ⟨before, after, rfl⟩ := List.append_of_mem hmem
    refine ⟨before, after, rfl, fun later hlater hname => ?_⟩
    rw [List.map_append, List.map_cons, List.nodup_append] at h
    exact (List.nodup_cons.1 h.2.1).1 (hname ▸ List.mem_map_of_mem hlater)

/-- Operations of different names may be added in any order. -/
theorem foldl_add_eq_of_perm (hperm : operations.Perm operations')
    (h : (operations.map Operation.name).Nodup) :
    operations.foldl add ⟨[], []⟩ = operations'.foldl add ⟨[], []⟩ := by
  have h' : (operations'.map Operation.name).Nodup := (hperm.map _).nodup_iff.1 h
  obtain ⟨hsorted, hmem, hnames, htypes⟩ := foldl_add operations
  obtain ⟨hsorted', hmem', hnames', htypes'⟩ := foldl_add operations'
  have hoperations := hsorted.eq_of_mem_iff hsorted' fun operation => by
    rw [hmem, hmem', isLast_iff_mem h, isLast_iff_mem h', hperm.mem_iff]
  have htypeNames := hnames.eq_of_mem_iff hnames' fun name => by
    rw [htypes, htypes']
    simp only [hperm.mem_iff]
  exact congrArg₂ Declarations.mk hoperations htypeNames

/-- Lines that declare operations of different names may stand in any order. -/
theorem ofLines_eq_of_perm (hperm : lines.Perm lines')
    (h : ((declared lines).map Operation.name).Nodup) : ofLines lines = ofLines lines' :=
  foldl_add_eq_of_perm ((hperm.flatMap_right quotedTexts).filterMap Operation.ofDeclaration?) h

/-- Lines without declarations declare nothing, and other lines do. -/
theorem operations_ofLines_eq_nil_iff : (ofLines lines).operations = [] ↔ declared lines = [] := by
  obtain ⟨-, hmem, -, -⟩ := foldl_add (declared lines)
  constructor
  · intro hnil
    obtain hdeclared | ⟨others, last, hdeclared⟩ := List.eq_nil_or_concat (declared lines)
    · exact hdeclared
    · rw [List.concat_eq_append] at hdeclared
      have hlast : last ∈ (ofLines lines).operations := by
        rw [ofLines, hmem, hdeclared]
        exact isLast_concat_iff.2 (.inl rfl)
      rw [hnil] at hlast
      cases hlast
  · intro hdeclared
    rw [ofLines, hdeclared]
    rfl

/-- A line that declares something is not blank. -/
theorem exists_of_declared_ne_nil (h : declared lines ≠ []) :
    ∃ line ∈ lines, ∃ c ∈ line, Text.isBlank c = false := by
  obtain ⟨operation, hoperation⟩ := List.exists_mem_of_ne_nil _ h
  obtain ⟨text, htext, -⟩ := List.mem_filterMap.1 hoperation
  obtain ⟨line, hline, hquoted⟩ := List.mem_flatMap.1 htext
  refine ⟨line, hline, '`', ?_, by decide⟩
  by_contra hfree
  have hpieces : Text.piecesBetween (· == '`') line = [line] :=
    Text.piecesBetween_eq_singleton fun c hc => by
      rw [beq_eq_false_iff_ne]
      rintro rfl
      exact hfree hc
  rw [quotedTexts, hpieces] at hquoted
  cases hquoted

end Signature.Declarations

/-- Stub modules for the same operations and names are told apart by their code. -/
theorem Stub.eq_of_render_eq {operations : List Signature.Operation} {names : List String}
    {code code' : String} (h : code.toList.getLast? = some '\n')
    (h' : code'.toList.getLast? = some '\n')
    (heq : render operations names code = render operations names code') : code = code' := by
  have hended : ended code = code := if_pos h
  have hended' : ended code' = code' := if_pos h'
  rw [render, render, hended, hended'] at heq
  exact (String.append_right_inj _).1 heq

namespace Verification

open Code Files Note Signature Signature.Declarations

variable {config : Config} {path : Path} {note : SectionNote} {body' : List (List Char)}
  {text text' : String}

/-- A report depends on what its note declares and on its block. -/
theorem inspect_eq_of_eq
    (hdeclared : readDeclarations text config.signatureMarker =
      readDeclarations text' config.signatureMarker)
    (hblock : extractBlock text config.lambdaHeading = extractBlock text' config.lambdaHeading) :
    inspect config path text = inspect config path text' := by
  rw [inspect, inspect, hdeclared, hblock]

theorem inspect_of_operations_eq_nil
    (h : (readDeclarations text config.signatureMarker).operations = []) :
    inspect config path text = ⟨path, .notApplicable .noOperations, none⟩ := by
  rw [inspect, h]
  rfl

/-- A block with lines that are not all blank makes a note with operations applicable. -/
theorem Applicable.of_ofLines {lines : List (List Char)}
    (hdeclares : (readDeclarations text config.signatureMarker).operations ≠ [])
    (hblock : extractBlock text config.lambdaHeading = Block.ofLines lines)
    (hshown : ∃ line ∈ lines, ∃ c ∈ line, Text.isBlank c = false) : Applicable config text := by
  refine ⟨hdeclares, fun hempty => ?_⟩
  rw [hblock, (ofLines_of_notBlank hshown).1, String.ofList_eq_empty_iff] at hempty
  obtain ⟨line, hline, c, hc, -⟩ := hshown
  have hmem : c ∈ Text.unlines lines :=
    List.mem_flatMap.2 ⟨line, hline, List.mem_append_left _ hc⟩
  rw [hempty] at hmem
  cases hmem

/-- The identifiers in a block do not depend on the order of its lines. -/
theorem identifiers_ofLines_eq_of_perm {lines lines' : List (List Char)} (hperm : lines.Perm lines')
    (hshown : ∃ line ∈ lines, ∃ c ∈ line, Text.isBlank c = false) :
    (Block.ofLines lines).identifiers = (Block.ofLines lines').identifiers := by
  obtain ⟨-, hsorted, hwords⟩ := ofLines_of_notBlank hshown
  simp only [hperm.mem_iff] at hshown
  obtain ⟨-, hsorted', hwords'⟩ := ofLines_of_notBlank hshown
  refine hsorted.eq_of_mem_iff hsorted' fun word => ?_
  simp only [hwords, hwords', hperm.mem_iff]

/-- Two notes that declare the same operations, and whose blocks hold the same lines in two orders,
have different stub modules. -/
theorem unlines_eq_of_stub_eq {lines lines' : List (List Char)} (hperm : lines.Perm lines')
    (hshown : ∃ line ∈ lines, ∃ c ∈ line, Text.isBlank c = false)
    (hdeclares : (readDeclarations text config.signatureMarker).operations ≠ [])
    (hdeclared : readDeclarations text' config.signatureMarker =
      readDeclarations text config.signatureMarker)
    (hblock : extractBlock text config.lambdaHeading = Block.ofLines lines)
    (hblock' : extractBlock text' config.lambdaHeading = Block.ofLines lines')
    (heq : (inspect config path text').stub = (inspect config path text).stub) :
    Text.unlines lines' = Text.unlines lines := by
  have hshown' : ∃ line ∈ lines', ∃ c ∈ line, Text.isBlank c = false := by
    simpa only [hperm.mem_iff] using hshown
  have happlicable : Applicable config text := .of_ofLines hdeclares hblock hshown
  have happlicable' : Applicable config text' :=
    .of_ofLines (hdeclared ▸ hdeclares) hblock' hshown'
  rw [(inspect_of_applicable happlicable).1, (inspect_of_applicable happlicable').1,
    Option.some.injEq, stubOf, stubOf, hdeclared, hblock, hblock',
    identifiers_ofLines_eq_of_perm hperm hshown] at heq
  have hlast := hblock ▸ extractBlock_getLast? happlicable.block
  have hlast' := hblock' ▸ extractBlock_getLast? happlicable'.block
  have hcode := Stub.eq_of_render_eq hlast' hlast heq
  rwa [(ofLines_of_notBlank hshown).1, (ofLines_of_notBlank hshown').1, String.ofList_inj] at hcode

/-- Where the block goes around plain lines and the reports are the same, the lines are in the same
order. -/
theorem eq_of_inspect_eq_of_surrounds {before body body' after : List (List Char)}
    (hsurrounds : Surrounds config.lambdaHeading.toList before after)
    (hplain : ∀ line ∈ body, fence? line = none) (hperm : body.Perm body')
    (hshown : ∃ line ∈ body, ∃ c ∈ line, Text.isBlank c = false)
    (hdeclares : (readDeclarations text config.signatureMarker).operations ≠ [])
    (hdeclared : readDeclarations text' config.signatureMarker =
      readDeclarations text config.signatureMarker)
    (hlines : Text.lines text.toList = before ++ (body ++ after))
    (hlines' : Text.lines text'.toList = before ++ (body' ++ after))
    (heq : inspect config path text' = inspect config path text) : body' = body := by
  obtain ⟨inside, inside', hinside⟩ := hsurrounds.exists_blockLines?_eq
  have hblock := extractBlock_eq text config.lambdaHeading
  rw [hlines, hinside _ hplain] at hblock
  have hblock' := extractBlock_eq text' config.lambdaHeading
  rw [hlines', hinside _ fun line hline => hplain line (hperm.mem_iff.2 hline)] at hblock'
  obtain ⟨line, hline, hshown⟩ := hshown
  have hcode := unlines_eq_of_stub_eq ((hperm.append_right inside').append_left inside)
    ⟨line, by simp [hline], hshown⟩ hdeclares hdeclared hblock hblock' (congrArg Report.stub heq)
  -- What stands around the lines is the same in both blocks, and no line holds a line break.
  simp only [Text.unlines_append] at hcode
  have hbreaks : ∀ line ∈ body, '\n' ∉ line := fun line hline =>
    Text.lineBreak_notMem_of_mem_lines (by rw [hlines]; simp [hline])
  exact Text.eq_of_unlines_eq (fun line hline => hbreaks line (hperm.mem_iff.2 hline)) hbreaks
    (List.append_cancel_right (List.append_cancel_left hcode))

/-- The report on a note stays the same with the lines of the section in another order, unless the
block goes around the section. Then the lines are code, and the report is the same only if they
declare nothing or stand in the same order. -/
theorem inspect_eq_iff_of_perm (h : note.IsDivided config.signatureMarker.toList)
    (hplain : ∀ line ∈ note.body, fence? line = none ∧ headingLevel line = none)
    (hperm : note.body.Perm body')
    (hdistinct : ((declared note.body).map Operation.name).Nodup)
    (htext : Text.lines text.toList = note.lines)
    (htext' : Text.lines text'.toList = ({ note with body := body' } : SectionNote).lines) :
    inspect config path text' = inspect config path text ↔
      (Surrounds config.lambdaHeading.toList (note.before ++ [note.heading]) note.after →
        declared note.body = [] ∨ body' = note.body) := by
  -- the section declares the same in both orders, so that the reports can differ in the code only
  have hplain' : ∀ line ∈ body', fence? line = none ∧ headingLevel line = none :=
    fun line hline => hplain line (hperm.mem_iff.2 hline)
  have hread := h.readDeclarations_eq (.of_forall hplain) htext
  have hdeclared : readDeclarations text' config.signatureMarker =
      readDeclarations text config.signatureMarker := by
    rw [hread, (h.withBody body').readDeclarations_eq (.of_forall hplain') htext']
    exact (ofLines_eq_of_perm hperm hdistinct).symm
  have hlines : Text.lines text.toList =
      (note.before ++ [note.heading]) ++ (note.body ++ note.after) := by
    rw [htext, SectionNote.lines, List.append_assoc, List.singleton_append]
  have hlines' : Text.lines text'.toList =
      (note.before ++ [note.heading]) ++ (body' ++ note.after) := by
    rw [htext', SectionNote.lines, List.append_assoc, List.singleton_append]
  have hoperations : (readDeclarations text config.signatureMarker).operations = [] ↔
      declared note.body = [] := by
    rw [hread]
    exact operations_ofLines_eq_nil_iff
  constructor
  · intro heq hsurrounds
    by_cases hnone : declared note.body = []
    · exact .inl hnone
    · exact .inr (eq_of_inspect_eq_of_surrounds hsurrounds (fun line hline => (hplain line hline).1)
        hperm (exists_of_declared_ne_nil hnone) (hoperations.not.2 hnone) hdeclared hlines hlines'
        heq)
  · intro hcases
    by_cases hsurrounds :
      Surrounds config.lambdaHeading.toList (note.before ++ [note.heading]) note.after
    · obtain hnone | rfl := hcases hsurrounds
      · rw [inspect_of_operations_eq_nil (by rw [hdeclared, hoperations.2 hnone]),
          inspect_of_operations_eq_nil (hoperations.2 hnone)]
      · refine inspect_eq_of_eq hdeclared ?_
        rw [extractBlock_eq, extractBlock_eq, hlines, hlines']
    · refine inspect_eq_of_eq hdeclared ?_
      rw [extractBlock_eq, extractBlock_eq, hlines, hlines',
        blockLines?_eq_of_perm hplain hperm hsurrounds]

/-- A line with two declarations, one with none and one with one, in two orders, before the section
with the code. -/
theorem inspect_eq_iff_of_perm_declarations :
    let note : SectionNote := {
      before := ["# Note".toList]
      heading := "## DSL Operations".toList
      body := ["`a: X × Y -> X` `b: () -> X`".toList, "`c: d`".toList, "`e: X -> Y`".toList]
      after := ["## Lambda Representation".toList, "```".toList, "def f(g):".toList,
        "    return e(g)".toList, "```".toList] }
    let body' := ["`e: X -> Y`".toList, "`c: d`".toList, "`a: X × Y -> X` `b: () -> X`".toList]
    let text := String.ofList (Text.unlines note.lines)
    let text' := String.ofList (Text.unlines ({ note with body := body' } : SectionNote).lines)
    note.IsDivided "## DSL Operations".toList ∧
      (∀ line ∈ note.body, fence? line = none ∧ headingLevel line = none) ∧
      note.body.Perm body' ∧ ((declared note.body).map Operation.name).Nodup ∧
      Text.lines text.toList = note.lines ∧
      Text.lines text'.toList = ({ note with body := body' } : SectionNote).lines ∧
      ¬Surrounds "## Lambda Representation".toList (note.before ++ [note.heading]) note.after ∧
      inspect {} "notes.md" text' = inspect {} "notes.md" text := by
  intro note body' text text'
  have hdivided : note.IsDivided "## DSL Operations".toList := by decide +kernel
  have hplain : ∀ line ∈ note.body, fence? line = none ∧ headingLevel line = none := by
    decide +kernel
  have hperm : note.body.Perm body' := by decide
  have hdistinct : ((declared note.body).map Operation.name).Nodup := by decide +kernel
  have htext : Text.lines text.toList = note.lines := by
    rw [String.toList_ofList, Text.lines_unlines (by decide +kernel)]
  have htext' : Text.lines text'.toList = ({ note with body := body' } : SectionNote).lines := by
    rw [String.toList_ofList, Text.lines_unlines (by decide +kernel)]
  have houtside : ¬Surrounds "## Lambda Representation".toList (note.before ++ [note.heading])
      note.after := not_surrounds_of_forall (by decide +kernel)
  have hiff : inspect {} "notes.md" text' = inspect {} "notes.md" text ↔ _ :=
    inspect_eq_iff_of_perm hdivided hplain hperm hdistinct htext htext'
  exact ⟨hdivided, hplain, hperm, hdistinct, htext, htext', houtside,
    hiff.2 fun hsurrounds => absurd hsurrounds houtside⟩

/-- A section in the middle of the code, between comments that look like headings: with two of its
lines exchanged the code cannot be read. -/
theorem inspect_ne_of_section_in_code :
    let note : SectionNote := {
      before := ["## Lambda Representation".toList, "```".toList]
      heading := "## DSL Operations".toList
      body := ["#`paint: Grid -> Grid`".toList, "def f(g):".toList, "    return paint(g)".toList]
      after := ["## End".toList, "```".toList] }
    let body' := ["#`paint: Grid -> Grid`".toList, "    return paint(g)".toList, "def f(g):".toList]
    let text := "## Lambda Representation\n```\n## DSL Operations\n#`paint: Grid -> Grid`\n" ++
      "def f(g):\n    return paint(g)\n## End\n```\n"
    let text' := "## Lambda Representation\n```\n## DSL Operations\n#`paint: Grid -> Grid`\n" ++
      "    return paint(g)\ndef f(g):\n## End\n```\n"
    note.IsDivided "## DSL Operations".toList ∧
      (∀ line ∈ note.body, fence? line = none ∧ headingLevel line = none) ∧
      note.body.Perm body' ∧ ((declared note.body).map Operation.name).Nodup ∧
      Text.lines text.toList = note.lines ∧
      Text.lines text'.toList = ({ note with body := body' } : SectionNote).lines ∧
      (inspect {} "notes.md" text).finding = .clean ∧
      inspect {} "notes.md" text' ≠ inspect {} "notes.md" text := by
  intro note body' text text'
  have hdivided : note.IsDivided "## DSL Operations".toList := by decide +kernel
  have hclean : (inspect {} "notes.md" text).finding = .clean := by decide +kernel
  have hviolations : (inspect {} "notes.md" text').finding ≠ .clean := by decide +kernel
  refine ⟨hdivided, by decide +kernel, by decide, by decide +kernel, by decide +kernel,
    by decide +kernel, hclean, fun heq => hviolations ?_⟩
  rw [heq, hclean]

end Verification

end NoteCheck
