/-
# Runs on paths in another order

A run comes to the same end whatever the order of its paths. The order of the notes is another
one then, and with it the first error, the order of the violations and the spelling under which a
batch knows a note. Before the checker is called, none of this decides: errors of an earlier stage
still come before those of a later one, and a batch holds the same texts for the same notes. Only a
checker that looks at the spelling of paths can tell two orders apart.
-/
import NoteCheck.Checker.Program
import NoteCheck.Proofs.Verification.Calls

namespace NoteCheck.Verification

open Files Results

variable {oracle : Batch → Except RunError Outcome} {walk : Walk} {tree : Tree}
  {config : Config} {paths paths' : List Path}

/-- Two errors of one kind, whatever they are about. -/
inductive RunError.SameKind : RunError → RunError → Prop
  | notFound (path path' : Path) : SameKind (.notFound path) (.notFound path')
  | noFilesFound : SameKind .noFilesFound .noFilesFound
  | noBlocks : SameKind .noBlocks .noBlocks
  | access (path path' : Path) (cause cause' : SystemError) :
      SameKind (.access path cause) (.access path' cause')
  | launch (program program' : String) (cause cause' : SystemError) :
      SameKind (.launch program cause) (.launch program' cause')

/-- Two runs agree in what they come to and in what they call the checker for: they fail alike, or
they reject the same violations, or each calls the checker once, for the same notes and texts, and
passes its answer on with the same number of notes. A relation says how the two answers of the
checker are alike. -/
inductive Agree (oracle : Batch → Except RunError Outcome)
    (Same : Except RunError Outcome → Except RunError Outcome → Prop) :
    Except RunError Verdict × List Batch → Except RunError Verdict × List Batch → Prop
  | failed {e e' : RunError} (hkind : e.SameKind e') :
      Agree oracle Same (.error e, []) (.error e', [])
  | rejected {found found' : List Code.Violation} (hperm : found.Perm found') :
      Agree oracle Same (.ok (.rejected found), []) (.ok (.rejected found'), [])
  | called {batch batch' : Batch} (documents : Nat) (hcontents : batch.contents = batch'.contents)
      (hanswer : Same (oracle batch) (oracle batch')) :
      Agree oracle Same ((oracle batch).map (.checked documents), [batch])
        ((oracle batch').map (.checked documents), [batch'])

/-- A checker whose answers are alike for batches that hold the same. -/
def Respects (oracle : Batch → Except RunError Outcome)
    (Same : Except RunError Outcome → Except RunError Outcome → Prop) : Prop :=
  ∀ batch batch' : Batch, batch.contents = batch'.contents → Same (oracle batch) (oracle batch')

/-- A checker that gives one answer for batches that hold the same. It does not see how the path of
a note is spelled. -/
def Uniform (oracle : Batch → Except RunError Outcome) : Prop := Respects oracle (· = ·)

/-- What two runs find before they call the checker. -/
inductive Gate.Alike : Gate → Gate → Prop
  | rejected {found found' : List Code.Violation} (hperm : found.Perm found') :
      Alike (.rejected found) (.rejected found')
  | passed {batch batch' : Batch} (hcontents : batch.contents = batch'.contents) :
      Alike (.passed batch) (.passed batch')

/-! ## The stages of a run -/

theorem related_discover (hperm : paths.Perm paths') (name : String) :
    Related (fun _ _ => True) List.Perm (discover walk tree name paths)
      (discover walk tree name paths') := by
  refine (Related.mapM_of_perm hperm fun _ _ _ _ _ _ => trivial).bind ?_
  intro found found' _ _ hfound
  exact .ok hfound.flatten

theorem eq_access_of_reportAt {note : Path} {e : RunError}
    (h : reportAt tree config note = .error e) : ∃ cause, e = .access note cause := by
  rw [reportAt] at h
  split at h
  · cases h
  · exact ⟨_, (Except.error.inj h).symm⟩

theorem related_reports (hperm : paths.Perm paths') :
    Related RunError.SameKind List.Perm (reports walk tree config paths)
      (reports walk tree config paths') := by
  refine ((related_discover hperm config.documentName).mapError ?_).bind ?_
  · intro path path' _
    exact .notFound path path'
  · intro notes notes' _ _ hnotes
    rw [hnotes.isEmpty_eq]
    split
    · exact .error .noFilesFound
    · refine .mapM_of_perm hnotes ?_
      intro note note' e e' h h'
      obtain ⟨cause, rfl⟩ := eq_access_of_reportAt h
      obtain ⟨cause', rfl⟩ := eq_access_of_reportAt h'
      exact .access note note' cause cause'

/-- Modules for one note have one text, since all its spellings lead to one file. -/
theorem text_eq_of_mem_modules {found : List Report}
    (hfound : reports walk tree config paths = .ok found) :
    ∀ m ∈ modules found, ∀ m' ∈ modules found, Batch.key m = Batch.key m' → m.text = m'.text := by
  intro m hm m' hm' hkey
  have hmem := fun m => mem_modules_iff (m := m) (reports_eq_ok_iff.1 hfound).2.2
  obtain ⟨note, -, text, happlicable, rfl⟩ := (hmem m).1 hm
  obtain ⟨note', -, text', happlicable', rfl⟩ := (hmem m').1 hm'
  rw [Tree.read_eq_of_components_eq happlicable.1 happlicable'.1 hkey]

theorem related_gate (hperm : paths.Perm paths') :
    Related RunError.SameKind Gate.Alike (gate walk tree config paths)
      (gate walk tree config paths') := by
  refine (related_reports hperm).bind ?_
  intro found found' hfound _ hreports
  have hcontents : (Batch.ofList (modules found)).contents =
      (Batch.ofList (modules found')).contents :=
    Batch.contents_ofList_eq_of_perm (hreports.filterMap _) (text_eq_of_mem_modules hfound)
  have hviolations : (found.flatMap Report.violations).Perm (found'.flatMap Report.violations) :=
    hreports.flatMap_right _
  have hempty : (Batch.ofList (modules found)).isEmpty =
      (Batch.ofList (modules found')).isEmpty := by
    have h := congrArg List.isEmpty hcontents
    rwa [Batch.contents, Batch.contents, List.isEmpty_map, List.isEmpty_map] at h
  -- Both runs take the same branch, for it depends on what is empty only.
  show Related _ _
    (if (Batch.ofList (modules found)).isEmpty then throw RunError.noBlocks else
      if (found.flatMap Report.violations).isEmpty then
        pure (Gate.passed (Batch.ofList (modules found)))
      else pure (.rejected (found.flatMap Report.violations)))
    (if (Batch.ofList (modules found')).isEmpty then throw RunError.noBlocks else
      if (found'.flatMap Report.violations).isEmpty then
        pure (Gate.passed (Batch.ofList (modules found')))
      else pure (.rejected (found'.flatMap Report.violations)))
  rw [hempty, hviolations.isEmpty_eq]
  split
  · exact .error .noBlocks
  · split
    · exact .ok (.passed hcontents)
    · exact .ok (.rejected hviolations)

/-! ## The checkers of the program -/

/-- The name of a module depends on the components of the path only. -/
theorem moduleNames_eq_of_components_eq {taken : List String} {notes notes' : List Path}
    (h : notes.map Path.components = notes'.map Path.components) :
    Checker.moduleNames taken notes = Checker.moduleNames taken notes' := by
  induction notes generalizing notes' taken with
  | nil =>
    obtain rfl := List.map_eq_nil_iff.1 h.symm
    rfl
  | cons note notes ih =>
    obtain ⟨note', notes', rfl, hnote, hnotes⟩ := List.map_eq_cons_iff.1 h.symm
    have hname : Checker.moduleName note = Checker.moduleName note' := by
      rw [Checker.moduleName, Checker.moduleName, Path.folderName?, Path.folderName?, Path.above,
        Path.above, Path.fileStem?, Path.fileStem?, Path.fileName?, Path.fileName?, hnote]
    rw [Checker.moduleNames, Checker.moduleNames, hname, ih hnotes.symm]

/-- A program is called with files whose names and texts come from the components of the paths and
from the texts. -/
theorem uniform_check (host : Checker.Host) (checker : CheckerConfig) :
    Uniform (Checker.check host checker) := by
  intro batch batch' h
  have hkeys := congrArg (List.map Prod.fst) h
  have htexts := congrArg (List.map Prod.snd) h
  simp only [Batch.contents, List.map_map] at hkeys htexts
  have hnames : Checker.scratchNames (batch.map Module.path) =
      Checker.scratchNames (batch'.map Module.path) := by
    unfold Checker.scratchNames
    refine congrArg _ (moduleNames_eq_of_components_eq ?_)
    rw [List.map_map, List.map_map]
    exact hkeys
  have hfiles : Checker.scratchFiles batch = Checker.scratchFiles batch' := by
    unfold Checker.scratchFiles
    rw [hnames]
    exact congrArg _ htexts
  have hmodules : ∀ scratch, Checker.moduleFiles scratch batch =
      Checker.moduleFiles scratch batch' := by
    intro scratch
    unfold Checker.moduleFiles
    rw [hfiles]
  simp only [Checker.check, Checker.writeModules, hmodules]

/-! ## Runs -/

/-- Runs on the same paths in another order agree, and the answers of the checker are alike in
every way in which they are for batches that hold the same. -/
theorem agree_of_respects {Same : Except RunError Outcome → Except RunError Outcome → Prop}
    (hsame : Respects oracle Same) (hperm : paths.Perm paths') :
    Agree oracle Same (StateT.run (run (recording oracle) walk tree config paths) [])
      (StateT.run (run (recording oracle) walk tree config paths') []) := by
  have hgate : Related RunError.SameKind Gate.Alike (gate walk tree config paths)
      (gate walk tree config paths') := related_gate hperm
  -- A run is its gate, and the call of the checker when a batch passes.
  rw [run_recording, run_recording]
  generalize gate walk tree config paths = decision,
    gate walk tree config paths' = decision' at hgate ⊢
  cases hgate with
  | error hkind => exact .failed hkind
  | ok halike =>
    cases halike with
    | rejected hviolations => exact .rejected hviolations
    | @passed batch batch' hcontents =>
      have hlength : batch.length = batch'.length := by
        have h := congrArg List.length hcontents
        rwa [Batch.contents, Batch.contents, List.length_map, List.length_map] at h
      dsimp only
      rw [hlength]
      exact .called _ hcontents (hsame batch batch' hcontents)

/-- Runs on the same paths in another order agree up to the answers of the checker, whatever the
checker. The answers are the same, too, when the checker does not see how paths are spelled. -/
theorem agree_of_perm (hperm : paths.Perm paths') :
    Agree oracle (fun _ _ => True) (StateT.run (run (recording oracle) walk tree config paths) [])
        (StateT.run (run (recording oracle) walk tree config paths') []) ∧
      (Uniform oracle →
        Agree oracle (· = ·) (StateT.run (run (recording oracle) walk tree config paths) [])
          (StateT.run (run (recording oracle) walk tree config paths') [])) := by
  constructor
  · exact agree_of_respects (fun _ _ _ => trivial) hperm
  · intro huniform
    exact agree_of_respects huniform hperm

/-- A note that is found twice, under two spellings. The order of the paths decides under which of
them a checker is given its module, and one that counts modules does not see it. -/
theorem agree_of_perm_two_spellings :
    let oracle := fun batch : Batch => Except.ok (Outcome.mk batch.length "")
    let paths := ["docs", "docs//notes.md"]
    let paths' := ["docs//notes.md", "docs"]
    let first := StateT.run (run (recording oracle) oneNote.walk oneNote {} paths) []
    let second := StateT.run (run (recording oracle) oneNote.walk oneNote {} paths') []
    paths.Perm paths' ∧ Uniform oracle ∧
      first.1 = .ok (.checked 1 ⟨1, ""⟩) ∧ first.2.map (·.map Module.path) = [["docs/notes.md"]] ∧
      second.2.map (·.map Module.path) = [["docs//notes.md"]] ∧
      Agree oracle (· = ·) first second := by
  intro oracle paths paths' first second
  have hperm : paths.Perm paths' := .swap _ _ []
  have huniform : Uniform oracle := by
    intro batch batch' h
    have hlength := congrArg List.length h
    rw [Batch.contents, Batch.contents, List.length_map, List.length_map] at hlength
    show Except.ok (Outcome.mk batch.length "") = Except.ok (Outcome.mk batch'.length "")
    rw [hlength]
  -- the gate keeps the spelling that comes first
  have hfirst : first = (.ok (.checked 1 ⟨1, ""⟩), [[⟨"docs/notes.md", stubOf {} cleanNote⟩]]) :=
    run_recording.trans (by rw [gate_oneNote.1]; rfl)
  have hsecond : second = (.ok (.checked 1 ⟨1, ""⟩), [[⟨"docs//notes.md", stubOf {} cleanNote⟩]]) :=
    run_recording.trans (by rw [gate_oneNote.2]; rfl)
  refine ⟨hperm, huniform, ?_, ?_, ?_, (agree_of_perm hperm).2 huniform⟩
  · rw [hfirst]
  · rw [hfirst]
    rfl
  · rw [hsecond]
    rfl

/-- Runs that agree and call the checker pass on the same answer. -/
theorem Agree.outcome_eq {first second : Except RunError Verdict × List Batch}
    {documents documents' : Nat} {outcome outcome' : Outcome}
    (h : Agree oracle (· = ·) first second) (hfirst : first.1 = .ok (.checked documents outcome))
    (hsecond : second.1 = .ok (.checked documents' outcome')) : outcome = outcome' := by
  cases h with
  | failed hkind => cases hfirst
  | rejected hviolations => cases hfirst
  | called documents hcontents hanswer =>
    obtain ⟨answer, hanswer₁, hverdict⟩ := map_eq_ok.1 hfirst
    obtain ⟨answer', hanswer₂, hverdict'⟩ := map_eq_ok.1 hsecond
    rw [hanswer₁, hanswer₂] at hanswer
    obtain ⟨-, rfl⟩ := Verdict.checked.inj hverdict
    obtain ⟨-, rfl⟩ := Verdict.checked.inj hverdict'
    exact Except.ok.inj hanswer

/-- A checker that asks for one spelling of a path answers differently when the paths stand in
another order. -/
theorem not_agree_of_perm_two_spellings :
    let oracle := fun batch : Batch => Except.ok
      (Outcome.mk (if batch.map Module.path = ["docs/notes.md"] then 0 else 1) "")
    let paths := ["docs", "docs//notes.md"]
    let paths' := ["docs//notes.md", "docs"]
    paths.Perm paths' ∧
      ¬Agree oracle (· = ·) (StateT.run (run (recording oracle) oneNote.walk oneNote {} paths) [])
        (StateT.run (run (recording oracle) oneNote.walk oneNote {} paths') []) := by
  intro oracle paths paths'
  refine ⟨.swap _ _ [], fun h => ?_⟩
  have hfirst : (StateT.run (run (recording oracle) oneNote.walk oneNote {} paths) []).1 =
      .ok (.checked 1 ⟨0, ""⟩) := by
    rw [run_recording, gate_oneNote.1]
    rfl
  have hsecond : (StateT.run (run (recording oracle) oneNote.walk oneNote {} paths') []).1 =
      .ok (.checked 1 ⟨1, ""⟩) := by
    rw [run_recording, gate_oneNote.2]
    rfl
  cases h.outcome_eq hfirst hsecond

end NoteCheck.Verification
