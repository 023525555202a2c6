/-
# What is discovered

Discovery succeeds exactly when every path leads somewhere, and then it yields the notes of one
path after the other.
-/
import NoteCheck.Files.Discovery
import NoteCheck.Proofs.Results

namespace NoteCheck.Files

variable {walk : Walk} {tree : Tree}

/-- The notes that paths stand for, where a path that leads nowhere stands for none. -/
def notesOf (walk : Walk) (tree : Tree) (name : String) (paths : List Path) : List Path :=
  paths.flatMap fun path => (notesAt? walk tree name path).getD []

/-- A path exists when it stands for notes, even if these are none. -/
theorem exists?_iff (walk : Walk) (name : String) {path : Path} :
    tree.exists? path ↔ ∃ notes, notesAt? walk tree name path = some notes := by
  rw [Tree.exists?, notesAt?]
  cases tree.find path with
  | error e => exact iff_of_false nofun nofun
  | ok found =>
    obtain ⟨place, entry⟩ := found
    cases entry with
    | file bytes => exact iff_of_true rfl ⟨_, rfl⟩
    | folder => exact iff_of_true rfl ⟨_, rfl⟩

theorem forall₂_notesAt?_iff {name : String} {paths : List Path} {found : List (List Path)} :
    List.Forall₂ (fun path notes => notesAt? walk tree name path = some notes) paths found ↔
      (∀ path ∈ paths, tree.exists? path) ∧
        found = paths.map fun path => (notesAt? walk tree name path).getD [] := by
  induction paths generalizing found with
  | nil =>
    rw [List.forall₂_nil_left_iff, List.map_nil]
    exact ⟨fun h => ⟨nofun, h⟩, And.right⟩
  | cons path paths ih =>
    rw [List.forall₂_cons_left_iff, List.forall_mem_cons, List.map_cons, exists?_iff walk name]
    constructor
    · rintro ⟨notes, found, hnotes, hfound, rfl⟩
      obtain ⟨hexist, rfl⟩ := ih.1 hfound
      refine ⟨⟨⟨notes, hnotes⟩, hexist⟩, ?_⟩
      rw [hnotes]
      rfl
    · rintro ⟨⟨⟨notes, hnotes⟩, hexist⟩, rfl⟩
      refine ⟨notes, _, hnotes, ih.2 ⟨hexist, rfl⟩, ?_⟩
      rw [hnotes]
      rfl

/-- The notes that a path stands for, or else the path. -/
def notesAt (walk : Walk) (tree : Tree) (name : String) (path : Path) : Except Path (List Path) :=
  match notesAt? walk tree name path with
  | some notes => .ok notes
  | none => .error path

theorem discover_eq (walk : Walk) (tree : Tree) (name : String) (paths : List Path) :
    discover walk tree name paths = (paths.mapM (notesAt walk tree name)).bind (pure ·.flatten) :=
  rfl

theorem notesAt_eq_ok_iff {name : String} {path : Path} {notes : List Path} :
    notesAt walk tree name path = .ok notes ↔ notesAt? walk tree name path = some notes := by
  rw [notesAt]
  cases notesAt? walk tree name path with
  | some notes' => rw [Except.ok.injEq, Option.some.injEq]
  | none => exact iff_of_false nofun nofun

theorem notesAt_eq_error_iff {name : String} {path path' : Path} :
    notesAt walk tree name path' = .error path ↔ path' = path ∧ ¬tree.exists? path' := by
  rw [exists?_iff walk name, notesAt]
  cases notesAt? walk tree name path' with
  | some notes => exact iff_of_false nofun fun h => h.2 ⟨notes, rfl⟩
  | none =>
    rw [Except.error.injEq]
    exact (and_iff_left nofun).symm

/-- Discovery yields all notes that the paths stand for, or else a path leads nowhere. -/
theorem discover_eq_ok_iff {name : String} {paths notes : List Path} :
    discover walk tree name paths = .ok notes ↔
      (∀ path ∈ paths, tree.exists? path) ∧ notes = notesOf walk tree name paths := by
  have hall : ∀ found, paths.mapM (notesAt walk tree name) = .ok found ↔
      (∀ path ∈ paths, tree.exists? path) ∧
        found = paths.map fun path => (notesAt? walk tree name path).getD [] := by
    intro found
    rw [Results.mapM_eq_ok, ← forall₂_notesAt?_iff]
    simp only [notesAt_eq_ok_iff]
  rw [discover_eq]
  refine Results.bind_eq_ok.trans ?_
  simp only [hall]
  constructor
  · rintro ⟨_, ⟨hexist, rfl⟩, hnotes⟩
    exact ⟨hexist, (Results.pure_eq_ok.1 hnotes).symm⟩
  · rintro ⟨hexist, rfl⟩
    exact ⟨_, ⟨hexist, rfl⟩, rfl⟩

/-- Discovery ends in the first path that leads nowhere. -/
theorem discover_eq_error_iff {name : String} {paths : List Path} {path : Path} :
    discover walk tree name paths = .error path ↔ ∃ before after, paths = before ++ path :: after ∧
      (∀ path ∈ before, tree.exists? path) ∧ ¬tree.exists? path := by
  rw [discover_eq]
  refine Results.bind_eq_error.trans ((or_iff_left ?_).trans ?_)
  · rintro ⟨found, -, h⟩
    cases h
  · simp only [Results.mapM_eq_error_iff, notesAt_eq_ok_iff, notesAt_eq_error_iff, ← exists?_iff]
    constructor
    · rintro ⟨before, _, after, hpaths, hbefore, rfl, hnowhere⟩
      exact ⟨before, after, hpaths, hbefore, hnowhere⟩
    · rintro ⟨before, after, hpaths, hbefore, hnowhere⟩
      exact ⟨before, path, after, hpaths, hbefore, rfl, hnowhere⟩

end NoteCheck.Files
