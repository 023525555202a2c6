/-
# The gate

When the notes let a batch pass to the checker, and what the batch holds then. Every note counts:
one that cannot be read, or one applicable note with a violation, holds back all of them.
-/
import NoteCheck.Proofs.Files.Discovery
import NoteCheck.Proofs.Files.Find
import NoteCheck.Proofs.Verification.Batch
import NoteCheck.Proofs.Verification.Report

namespace NoteCheck.Verification

open Code Files Note

variable {walk : Walk} {tree : Tree} {config : Config} {paths : List Path} {batch : Batch}

/-- The file at a path can be read, and its text is an applicable note. -/
def IsApplicableAt (tree : Tree) (config : Config) (path : Path) (text : String) : Prop :=
  tree.read path = .ok text ∧ Applicable config text

/-- What the notes have to be for the checker to be called. -/
structure Ready (walk : Walk) (tree : Tree) (config : Config) (paths : List Path) : Prop where
  exist : ∀ path ∈ paths, tree.exists? path
  found : notesOf walk tree config.documentName paths ≠ []
  readable : ∀ note ∈ notesOf walk tree config.documentName paths, ∃ text, tree.read note = .ok text
  applicable : ∃ note ∈ notesOf walk tree config.documentName paths, ∃ text,
    IsApplicableAt tree config note text
  clean : ∀ note ∈ notesOf walk tree config.documentName paths, ∀ text,
    IsApplicableAt tree config note text →
      violations (extractBlock text config.lambdaHeading).code note = []

/-- A batch holds one module for every applicable note, whatever the number of its spellings. Each
module ends with the code of its note, which has no violations. -/
structure Represents (batch : Batch) (walk : Walk) (tree : Tree) (config : Config)
    (paths : List Path) : Prop where
  nodup : (batch.map Batch.key).Nodup
  mem_key_iff : ∀ key, key ∈ batch.map Batch.key ↔
    ∃ note ∈ notesOf walk tree config.documentName paths, ∃ text,
      IsApplicableAt tree config note text ∧ note.components = key
  ends : ∀ m ∈ batch, m.path ∈ notesOf walk tree config.documentName paths ∧ ∃ text preamble,
    IsApplicableAt tree config m.path text ∧
      m.text = preamble ++ (extractBlock text config.lambdaHeading).code ∧
      violations (extractBlock text config.lambdaHeading).code m.path = []

/-! ## Reports -/

/-- A note has a report just if it can be read, and then the report is about its text. -/
theorem reportAt_eq_ok_iff {note : Path} {report : Report} :
    reportAt tree config note = .ok report ↔
      ∃ text, tree.read note = .ok text ∧ report = inspect config note text := by
  rw [reportAt]
  cases tree.read note with
  | error e => exact iff_of_false nofun nofun
  | ok text =>
    constructor
    · intro h
      exact ⟨text, rfl, (Except.ok.inj h).symm⟩
    · rintro ⟨_, htext, rfl⟩
      rw [Except.ok.inj htext]

/-- There are reports just if every path exists, a note is found and each note can be read. -/
theorem reports_eq_ok_iff {found : List Report} :
    reports walk tree config paths = .ok found ↔
      (∀ path ∈ paths, tree.exists? path) ∧ notesOf walk tree config.documentName paths ≠ [] ∧
        (notesOf walk tree config.documentName paths).mapM (reportAt tree config) = .ok found := by
  simp only [reports, Results.bind_eq_ok, Results.mapError_eq_ok, discover_eq_ok_iff]
  constructor
  · rintro ⟨notes, ⟨hexist, rfl⟩, h⟩
    split at h
    · cases h
    · rename_i hne
      exact ⟨hexist, fun hnil => hne (List.isEmpty_iff.2 hnil), h⟩
  · rintro ⟨hexist, hne, h⟩
    refine ⟨_, ⟨hexist, rfl⟩, ?_⟩
    rw [if_neg fun hnil => hne (List.isEmpty_iff.1 hnil)]
    exact h

/-- The modules that reports come with. -/
def modules (found : List Report) : List Module := found.filterMap Report.module?

/-- The modules are those of the notes that a block applies to. -/
theorem mem_modules_iff {found : List Report} {m : Module}
    (h : (notesOf walk tree config.documentName paths).mapM (reportAt tree config) = .ok found) :
    m ∈ modules found ↔
      ∃ note ∈ notesOf walk tree config.documentName paths, ∃ text,
        IsApplicableAt tree config note text ∧ m = ⟨note, stubOf config text⟩ := by
  rw [modules, List.mem_filterMap]
  simp only [Results.mem_of_mapM_eq_ok h, reportAt_eq_ok_iff]
  constructor
  · rintro ⟨_, ⟨note, hnote, text, htext, rfl⟩, hm⟩
    obtain ⟨happlicable, rfl⟩ := module?_inspect_eq_some_iff.1 hm
    exact ⟨note, hnote, text, ⟨htext, happlicable⟩, rfl⟩
  · rintro ⟨note, hnote, text, ⟨htext, happlicable⟩, rfl⟩
    exact ⟨_, ⟨note, hnote, text, htext, rfl⟩, module?_inspect_eq_some_iff.2 ⟨happlicable, rfl⟩⟩

/-- Nothing is found about the notes just if nothing is found about any block that applies. -/
theorem flatMap_violations_eq_nil_iff {found : List Report}
    (h : (notesOf walk tree config.documentName paths).mapM (reportAt tree config) = .ok found) :
    found.flatMap Report.violations = [] ↔
      ∀ note ∈ notesOf walk tree config.documentName paths, ∀ text,
        IsApplicableAt tree config note text →
          violations (extractBlock text config.lambdaHeading).code note = [] := by
  rw [List.flatMap_eq_nil_iff]
  simp only [Results.mem_of_mapM_eq_ok h, reportAt_eq_ok_iff]
  constructor
  · rintro hclean note hnote text ⟨htext, happlicable⟩
    exact violations_inspect_eq_nil_iff.1 (hclean _ ⟨note, hnote, text, htext, rfl⟩) happlicable
  · rintro hclean _ ⟨note, hnote, text, htext, rfl⟩
    exact violations_inspect_eq_nil_iff.2 fun happlicable =>
      hclean note hnote text ⟨htext, happlicable⟩

/-! ## The gate -/

/-- The gate passes the modules just if there is one and nothing is found about the notes. -/
theorem gate_eq_passed_iff :
    gate walk tree config paths = .ok (.passed batch) ↔
      ∃ found, reports walk tree config paths = .ok found ∧ modules found ≠ [] ∧
        found.flatMap Report.violations = [] ∧ Batch.ofList (modules found) = batch := by
  rw [gate, Results.bind_eq_ok]
  refine exists_congr fun found => and_congr_right fun _ => ?_
  have hempty : (Batch.ofList (modules found)).isEmpty = true ↔ modules found = [] := by
    rw [List.isEmpty_iff, Batch.ofList_eq_nil_iff]
  have hclean : (found.flatMap Report.violations).isEmpty = true ↔
      found.flatMap Report.violations = [] := List.isEmpty_iff
  rw [Ne, ← hempty, ← hclean]
  show (if (Batch.ofList (modules found)).isEmpty = true then throw RunError.noBlocks else
    if (found.flatMap Report.violations).isEmpty = true then
      pure (Gate.passed (Batch.ofList (modules found)))
    else pure (.rejected (found.flatMap Report.violations))) = _ ↔ _
  split
  · rename_i hnil
    exact iff_of_false nofun fun h => h.1 hnil
  · rename_i hne
    split
    · rename_i hnil
      rw [Results.pure_eq_ok, Gate.passed.injEq]
      exact ⟨fun h => ⟨hne, hnil, h⟩, fun h => h.2.2⟩
    · rename_i hviolations
      exact iff_of_false nofun fun h => hviolations h.2.1

/-- A batch passes exactly when the notes are ready for the checker. -/
theorem exists_passed_iff_ready :
    (∃ batch, gate walk tree config paths = .ok (.passed batch)) ↔
      Ready walk tree config paths := by
  simp only [gate_eq_passed_iff, reports_eq_ok_iff]
  constructor
  · rintro ⟨_, found, ⟨hexist, hne, hfound⟩, hmodules, hclean, rfl⟩
    obtain ⟨m, hm⟩ := List.exists_mem_of_ne_nil _ hmodules
    obtain ⟨note, hnote, text, happlicable, -⟩ := (mem_modules_iff hfound).1 hm
    refine ⟨hexist, hne, ?_, ⟨note, hnote, text, happlicable⟩,
      (flatMap_violations_eq_nil_iff hfound).1 hclean⟩
    intro note hnote
    obtain ⟨report, hreport⟩ := Results.exists_mapM_eq_ok.1 ⟨found, hfound⟩ note hnote
    obtain ⟨text, htext, -⟩ := reportAt_eq_ok_iff.1 hreport
    exact ⟨text, htext⟩
  · intro h
    obtain ⟨found, hfound⟩ : ∃ found,
        (notesOf walk tree config.documentName paths).mapM (reportAt tree config) = .ok found := by
      refine Results.exists_mapM_eq_ok.2 fun note hnote => ?_
      obtain ⟨text, htext⟩ := h.readable note hnote
      exact ⟨_, reportAt_eq_ok_iff.2 ⟨text, htext, rfl⟩⟩
    obtain ⟨note, hnote, text, happlicable⟩ := h.applicable
    refine ⟨_, found, ⟨h.exist, h.found, hfound⟩, ?_,
      (flatMap_violations_eq_nil_iff hfound).2 h.clean, rfl⟩
    exact List.ne_nil_of_mem ((mem_modules_iff hfound).2 ⟨note, hnote, text, happlicable, rfl⟩)

/-- A batch that passes holds the applicable notes. Where a note has several spellings, its text is
the same under all of them. -/
theorem represents_of_gate (h : gate walk tree config paths = .ok (.passed batch)) :
    Represents batch walk tree config paths := by
  have hready : Ready walk tree config paths := exists_passed_iff_ready.1 ⟨batch, h⟩
  obtain ⟨found, hreports, -, -, rfl⟩ := gate_eq_passed_iff.1 h
  have hmem := fun m => mem_modules_iff (m := m) (reports_eq_ok_iff.1 hreports).2.2
  constructor
  · exact (Batch.increasing_ofList _).nodup
  · intro key
    rw [Batch.mem_keys_ofList, List.mem_map]
    constructor
    · rintro ⟨m, hm, rfl⟩
      obtain ⟨note, hnote, text, happlicable, rfl⟩ := (hmem m).1 hm
      exact ⟨note, hnote, text, happlicable, rfl⟩
    · rintro ⟨note, hnote, text, happlicable, rfl⟩
      exact ⟨_, (hmem _).2 ⟨note, hnote, text, happlicable, rfl⟩, rfl⟩
  · intro b hb
    obtain ⟨m, hm, m', hm', rfl, hkey⟩ := Batch.exists_of_mem_ofList hb
    obtain ⟨note, hnote, text, happlicable, rfl⟩ := (hmem m).1 hm
    obtain ⟨note', -, text', happlicable', rfl⟩ := (hmem m').1 hm'
    have htext : text = text' :=
      Tree.read_eq_of_components_eq happlicable.1 happlicable'.1 hkey
    obtain ⟨preamble, hpreamble⟩ := happlicable.2.exists_stubOf_eq
    rw [← htext]
    exact ⟨hnote, text, preamble, happlicable, hpreamble, hready.clean note hnote text happlicable⟩

/-! ## A note that passes -/

/-- A note with one operation, and a block that calls it. -/
def cleanNote : String := "## DSL Operations\n`f: G -> G`\n## Lambda Representation\n```\n" ++
  "def g(x):\n    return f(x)\n```\n"

/-- A tree with the one note. -/
def oneNote : Tree :=
  Tree.ofPaths "/work" [("docs/notes.md", .file (.ok (Text.Utf8.encode cleanNote)))]

/-- The note passes under the spelling under which it is found first. -/
theorem gate_oneNote :
    gate oneNote.walk oneNote {} ["docs", "docs//notes.md"] =
        .ok (.passed [⟨"docs/notes.md", stubOf {} cleanNote⟩]) ∧
      gate oneNote.walk oneNote {} ["docs//notes.md", "docs"] =
        .ok (.passed [⟨"docs//notes.md", stubOf {} cleanNote⟩]) := by
  decide +kernel

end NoteCheck.Verification
