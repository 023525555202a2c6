/-
# Listings

What discovery lists. A file stands for itself. A folder stands for the files of a name anywhere
below it, each once and in the order of their paths, whatever the order in which a walk through the
folder comes upon them. The first path that leads nowhere is the error.
-/
import NoteCheck.Proofs.Files.Discovery
import NoteCheck.Proofs.Files.Find
import NoteCheck.Proofs.Files.Order
import NoteCheck.Proofs.Sorted
import NoteCheck.Proofs.Text.Pieces
import Mathlib.Data.List.Infix

namespace NoteCheck.Files

/-! ## Paths with names after them -/

namespace Path

/-- A text between slashes stands for a name when it is that name and none of the texts with a
meaning of their own. -/
theorem component?_eq_name_iff {piece : List Char} {name : String} :
    component? piece = some (.name name) ↔
      piece = name.toList ∧ piece ≠ [] ∧ piece ≠ ['.'] ∧ piece ≠ ['.', '.'] := by
  rw [component?]
  by_cases hnone : piece = [] ∨ piece = ['.']
  · rw [if_pos hnone]
    constructor
    · intro h
      cases h
    · rintro ⟨-, hnil, hhere, -⟩
      exact (hnone.elim hnil hhere).elim
  by_cases hup : piece = ['.', '.']
  · rw [if_neg hnone, if_pos hup, Option.some.injEq]
    constructor
    · intro h
      cases h
    · rintro ⟨-, -, -, hne⟩
      exact absurd hup hne
  · rw [if_neg hnone, if_neg hup, Option.some.injEq, Component.name.injEq, ← String.toList_inj,
      String.toList_ofList]
    rw [not_or] at hnone
    exact ⟨fun heq => ⟨heq, hnone.1, hnone.2, hup⟩, And.left⟩

/-- The component before the names of a path, by its first character and the text before its first
slash. -/
def opening (first : Option Char) (piece : Option (List Char)) : List Component :=
  if first = some '/' then [.root] else if piece = some ['.'] then [.here] else []

/-- The components of a path are what it begins with and those of the texts between slashes. -/
theorem components_eq (path : Path) :
    path.components = opening path.toList.head? path.pieces.head? ++
      path.pieces.filterMap component? := by
  rw [components, opening]
  split
  · rename_i hslash
    rw [hslash]
    rfl
  · rename_i hhere hslash
    rw [if_neg fun h => (List.head?_eq_some_iff.1 h).elim hslash,
      if_pos (List.head?_eq_some_iff.2 ⟨_, hhere⟩)]
    rfl
  · rename_i hslash hhere
    rw [if_neg fun h => (List.head?_eq_some_iff.1 h).elim hslash,
      if_neg fun h => (List.head?_eq_some_iff.1 h).elim hhere]
    rfl

/-- A slash comes between a path and a name after it, and the path may end with it already. -/
theorem exists_toList_join_eq {path : Path} (hpath : path.toList ≠ []) (name : String) :
    ∃ stem, (path.join [name]).toList = stem ++ '/' :: name.toList ∧
      path.components = opening (stem ++ ['/']).head? (Text.piecesBetween (· == '/') stem).head? ++
        (Text.piecesBetween (· == '/') stem).filterMap component? := by
  have hempty : path.isEmpty = false := by
    rw [← Bool.not_eq_true, String.isEmpty_iff, ← String.toList_eq_nil_iff]
    exact hpath
  rw [join, List.foldl_cons, List.foldl_nil, hempty, Bool.false_or]
  split
  -- The empty piece after a slash at the end stands for no component.
  · rename_i hlast
    obtain ⟨stem, hstem⟩ := List.getLast?_eq_some_iff.1 (of_decide_eq_true hlast)
    refine ⟨stem, ?_, ?_⟩
    · rw [String.toList_append, hstem, List.append_assoc, List.singleton_append]
    · have hpieces : path.pieces = Text.piecesBetween (· == '/') stem ++ [[]] := by
        rw [pieces, hstem, Text.piecesBetween_append_cons (by rfl)]
        rfl
      rw [components_eq, hpieces, hstem,
        List.head?_append_of_ne_nil _ (Text.piecesBetween_ne_nil _ _), List.filterMap_append]
      exact congrArg _ (List.append_nil _)
  · refine ⟨path.toList, ?_, ?_⟩
    · rw [String.toList_append, String.toList_append, List.append_assoc]
      rfl
    · rw [components_eq, List.head?_append_of_ne_nil _ hpath]
      rfl

/-- There is no slash in a name. -/
theorem pieces_of_isName {name : String} (hname : IsName name) :
    Text.piecesBetween (· == '/') name.toList = [name.toList] := by
  apply Text.piecesBetween_eq_singleton
  intro c hc
  apply beq_false_of_ne
  rintro rfl
  exact hname.slash_notMem hc

/-- A name between slashes stands for itself. -/
theorem component?_of_isName {name : String} (hname : IsName name) :
    component? name.toList = some (.name name) :=
  component?_eq_name_iff.2 ⟨rfl, hname.ne_nil, hname.ne_here, hname.ne_up⟩

/-- A name by itself has one component. -/
theorem components_of_isName {name : String} (hname : IsName name) :
    Path.components name = [.name name] := by
  have hslash : name.toList.head? ≠ some '/' := fun h =>
    hname.slash_notMem (List.mem_of_mem_head? h)
  have hhere : [name.toList].head? ≠ some ['.'] := fun h => hname.ne_here (Option.some.inj h)
  rw [components_eq, pieces, pieces_of_isName hname, opening, if_neg hslash, if_neg hhere,
    List.nil_append, List.filterMap_cons_some (component?_of_isName hname), List.filterMap_nil]

/-- A name after a path is one more component. -/
theorem components_join_singleton (path : Path) {name : String} (hname : IsName name) :
    (path.join [name]).components = path.components ++ [.name name] := by
  by_cases hempty : path.toList = []
  · rw [String.toList_eq_nil_iff] at hempty
    subst hempty
    exact components_of_isName hname
  · obtain ⟨stem, hjoin, hcomponents⟩ := exists_toList_join_eq hempty name
    have hpieces : (path.join [name]).pieces =
        Text.piecesBetween (· == '/') stem ++ [name.toList] := by
      rw [pieces, hjoin, Text.piecesBetween_append_cons (by rfl), pieces_of_isName hname]
    have hfirst : (stem ++ '/' :: name.toList).head? = (stem ++ ['/']).head? := by
      cases stem <;> rfl
    rw [components_eq, hjoin, hpieces, hcomponents, hfirst,
      List.head?_append_of_ne_nil _ (Text.piecesBetween_ne_nil _ _), List.filterMap_append,
      List.filterMap_cons_some (component?_of_isName hname), List.filterMap_nil,
      List.append_assoc]

/-- Names after a path are as many components more. -/
theorem components_join (path : Path) {names : List String}
    (hnames : ∀ name ∈ names, IsName name) :
    (path.join names).components = path.components ++ names.map .name := by
  induction names generalizing path with
  | nil => exact (List.append_nil _).symm
  | cons name names ih =>
    obtain ⟨hname, hnames⟩ := List.forall_mem_cons.1 hnames
    have hsteps : path.join (name :: names) = (path.join [name]).join names := rfl
    rw [hsteps, ih (path.join [name]) hnames, components_join_singleton path hname,
      List.append_assoc]
    rfl

/-- The name at the end of a path with names after it is the last of them. -/
theorem fileName?_join (path : Path) {names : List String} (hne : names ≠ [])
    (hnames : ∀ name ∈ names, IsName name) : (path.join names).fileName? = names.getLast? := by
  rw [fileName?, components_join path hnames,
    List.getLast?_append_of_ne_nil _ (by simpa using hne), List.getLast?_map]
  cases names.getLast? with
  | none => rfl
  | some name => rfl

/-- Different names lead to different places. -/
theorem eq_of_components_join_eq {path : Path} {names names' : List String}
    (hnames : ∀ name ∈ names, IsName name) (hnames' : ∀ name ∈ names', IsName name)
    (heq : (path.join names).components = (path.join names').components) : names = names' := by
  rw [components_join path hnames, components_join path hnames'] at heq
  exact List.map_injective_iff.2 (fun _ _ => Component.name.inj) (List.append_cancel_left heq)

end Path

/-! ## What lies below a folder -/

namespace Tree

variable {tree : Tree} {name : String} {path : Path} {place names : List String}

/-- Names lead from a place down to a file, and the last of them is the given one. -/
def isNote (tree : Tree) (name : String) (place names : List String) : Bool :=
  (tree.entry? (place ++ names)).any Entry.isFile && names.getLast? = some name

/-- A walk through the folder at a path comes upon every file and folder below it exactly once, in
some order, whatever it cannot read elsewhere. The folder itself may be among what it comes upon. -/
def Walks (tree : Tree) (path : Path) (place : List String)
    (found : List (Except SystemError Visit)) : Prop :=
  ∃ below : List (List String), below.Nodup ∧
    (∀ names ≠ [], names ∈ below ↔ tree.entry? (place ++ names) ≠ none) ∧
    found.filterMap Except.toOption = below.map (tree.visit path place)

/-- Everything in a tree is the folder in which the program works, an entry, or above one of
these. -/
theorem exists_prefix_of_entry?_ne_none (h : tree.entry? place ≠ none) :
    ∃ listed ∈ tree.here :: tree.entries.map Prod.fst, place <+: listed := by
  unfold entry? at h
  split at h
  · rename_i entry hentry
    obtain ⟨before, after, hentries, -⟩ := List.lookup_eq_some_iff.1 hentry
    exact ⟨place, by simp [hentries], List.prefix_rfl⟩
  · split at h
    · rename_i hfolder
      simp only [isFolder, Bool.or_eq_true, List.any_eq_true, Bool.and_eq_true,
        List.isPrefixOf_iff_prefix] at hfolder
      rcases hfolder with hbegins | ⟨entry, hentry, hbegins, -⟩
      · exact ⟨tree.here, List.mem_cons_self, hbegins⟩
      · exact ⟨entry.1, List.mem_cons_of_mem _ (List.mem_map_of_mem hentry), hbegins⟩
    · exact absurd rfl h

/-- Names lead to everything in a tree. -/
theorem isName_of_entry?_ne_none (h : tree.entry? place ≠ none) : ∀ name ∈ place, IsName name := by
  obtain ⟨listed, hlisted, hbegins⟩ := exists_prefix_of_entry?_ne_none h
  intro name hname
  rcases List.mem_cons.1 hlisted with rfl | hlisted
  · exact tree.isName_of_here name (hbegins.subset hname)
  · obtain ⟨entry, hentry, rfl⟩ := List.mem_map.1 hlisted
    exact tree.isName_of_mem entry hentry name (hbegins.subset hname)

theorem isNote_iff : tree.isNote name place names = true ↔
    (tree.entry? (place ++ names)).any Entry.isFile = true ∧ names.getLast? = some name := by
  rw [isNote, Bool.and_eq_true, decide_eq_true_eq]

/-- A note is something in the tree. -/
theorem entry?_ne_none_of_isNote (h : tree.isNote name place names = true) :
    tree.entry? (place ++ names) ≠ none := by
  intro hnone
  have hfile := (isNote_iff.1 h).1
  rw [hnone] at hfile
  cases hfile

/-- There is a name in the path to a note. -/
theorem ne_nil_of_isNote (h : tree.isNote name place names = true) : names ≠ [] := by
  rintro rfl
  cases (isNote_iff.1 h).2

/-- Names lead to a note. -/
theorem isName_of_isNote (h : tree.isNote name place names = true) :
    ∀ name ∈ names, IsName name := fun name hname =>
  isName_of_entry?_ne_none (entry?_ne_none_of_isNote h) name (List.mem_append_right place hname)

/-- The names that lead to everything below a place, each once. -/
theorem mem_below_iff : names ∈ tree.below place ↔
    names ≠ [] ∧ tree.entry? (place ++ names) ≠ none := by
  rw [below, Sorted.mem_ofList_iff, List.mem_filter, Bool.and_eq_true, Option.isSome_iff_ne_none]
  simp only [Bool.not_eq_true', List.isEmpty_eq_false_iff]
  refine and_iff_right_of_imp ?_
  rintro ⟨-, hentry⟩
  -- Whatever is in the tree begins a place that is listed, so that the search comes upon it.
  obtain ⟨listed, hlisted, hbegins⟩ := exists_prefix_of_entry?_ne_none hentry
  refine List.mem_filterMap.2 ⟨place ++ names, ?_, List.isPrefixOf?_eq_some_iff_append_eq.2 rfl⟩
  refine List.mem_flatMap.2 ⟨listed, hlisted, List.mem_map.2 ⟨(place ++ names).length, ?_, ?_⟩⟩
  · rw [List.mem_range]
    have := hbegins.length_le
    omega
  · exact (List.prefix_iff_eq_take.1 hbegins).symm

/-- The walk of a tree comes upon everything below a folder. -/
theorem walks_walk {barrier : Option SystemError}
    (h : tree.find path = .ok (place, .folder barrier)) :
    tree.Walks path place (tree.walk path) := by
  refine ⟨tree.below place, ?_, ?_, ?_⟩
  · exact Sorted.nodup_ofList _
  · intro names hne
    exact mem_below_iff.trans (and_iff_right hne)
  · rw [walk, h]
    dsimp only
    rw [List.filterMap_map]
    exact congrFun List.filterMap_eq_map' (tree.below place)

end Tree

/-! ## Listings of folders -/

variable {walk : Walk} {tree : Tree} {name : String} {path : Path} {place : List String}

/-- The notes of a name below the folder to which a path leads: each once, in the order of their
paths. -/
structure IsListing (tree : Tree) (name : String) (path : Path) (place : List String)
    (notes : List Path) : Prop where
  increasing : Sorted.Increasing Path.components notes
  mem_iff : ∀ note, note ∈ notes ↔
    ∃ names, tree.isNote name place names = true ∧ path.join names = note
  distinct : ∀ names names', tree.isNote name place names = true →
    tree.isNote name place names' = true → path.join names = path.join names' → names = names'

/-- What stands for a path in a listing. -/
inductive Listed (tree : Tree) (name : String) (path : Path) : List Path → Prop
  | file {place : List String} {content : Except SystemError (List UInt8)}
      (h : tree.find path = .ok (place, .file content)) : Listed tree name path [path]
  | folder {place : List String} {barrier : Option SystemError} {notes : List Path}
      (h : tree.find path = .ok (place, .folder barrier))
      (hnotes : IsListing tree name path place notes) : Listed tree name path notes

/-- What a walk comes upon has the name of a note exactly when it is one. -/
theorem isFile_and_name_iff {barrier : Option SystemError} {names : List String}
    (hplace : tree.entry? place = some (.folder barrier))
    (hentry : names ≠ [] → tree.entry? (place ++ names) ≠ none) :
    ((tree.visit path place names).isFile && (tree.visit path place names).name = name) =
      tree.isNote name place names := by
  by_cases hne : names = []
  · subst hne
    have hvisit : (tree.visit path place []).isFile = false := by
      rw [Tree.visit, List.append_nil, hplace]
      rfl
    have hnote : tree.isNote name place [] = false := by
      rw [Tree.isNote, List.append_nil, hplace]
      rfl
    rw [hvisit, hnote, Bool.false_and]
  · have hnames : ∀ name ∈ names, IsName name := fun name hname =>
      Tree.isName_of_entry?_ne_none (hentry hne) name (List.mem_append_right place hname)
    rw [Tree.isNote, Visit.name, Tree.visit, Path.fileName?_join path hne hnames,
      List.getLast?_eq_some_getLast hne, Option.getD_some]
    simp only [Option.some.injEq]

/-- The notes that a walk comes upon are listed, whatever the order in which it does. -/
theorem isListing_notesBelow {barrier : Option SystemError}
    (hplace : tree.entry? place = some (.folder barrier))
    (hwalk : tree.Walks path place (walk path)) :
    IsListing tree name path place (notesBelow walk name path) := by
  obtain ⟨below, hnodup, hmem, hfound⟩ := hwalk
  have hentry : ∀ names ∈ below, names ≠ [] → tree.entry? (place ++ names) ≠ none :=
    fun names hnames hne => (hmem names hne).1 hnames
  have hnotes : notesBelow walk name path =
      Sorted.sortBy Path.components ((below.filter (tree.isNote name place)).map path.join) := by
    unfold notesBelow
    dsimp only
    rw [hfound, List.filter_map, List.map_map]
    congr 2
    apply List.filter_congr
    intro names hnames
    exact isFile_and_name_iff hplace (hentry names hnames)
  -- names alone tell the notes apart, since their paths have the same folder before them
  have hnames : ∀ names ∈ below.filter (tree.isNote name place), ∀ name ∈ names, IsName name :=
    fun names hnames => Tree.isName_of_isNote (List.mem_filter.1 hnames).2
  rw [hnotes]
  refine ⟨Sorted.increasing_sortBy ?_, fun note => ?_, fun names names' hnote hnote' heq => ?_⟩
  · rw [List.map_map]
    refine List.Nodup.map_on ?_ (hnodup.filter _)
    intro names hnames₁ names' hnames₂ heq
    exact Path.eq_of_components_join_eq (hnames names hnames₁) (hnames names' hnames₂) heq
  · rw [(Sorted.perm_sortBy Path.components _).mem_iff, List.mem_map]
    apply exists_congr
    intro names
    rw [List.mem_filter]
    apply and_congr_left
    intro _
    constructor
    · exact And.right
    · intro hnote
      exact ⟨(hmem names (Tree.ne_nil_of_isNote hnote)).2 (Tree.entry?_ne_none_of_isNote hnote),
        hnote⟩
  · exact Path.eq_of_components_join_eq (Tree.isName_of_isNote hnote)
      (Tree.isName_of_isNote hnote') (congrArg Path.components heq)

/-! ## Discovery -/

/-- The notes that a path stands for are listed, if the walk through the folder at the path comes
upon everything. -/
theorem listed_of_notesAt?
    (hwalk : ∀ place barrier, tree.find path = .ok (place, .folder barrier) →
      tree.Walks path place (walk path))
    {notes : List Path} (hnotes : notesAt? walk tree name path = some notes) :
    Listed tree name path notes := by
  rw [notesAt?] at hnotes
  split at hnotes
  · rename_i hfind
    obtain rfl := Option.some.inj hnotes
    exact .file hfind
  · rename_i hfind
    obtain rfl := Option.some.inj hnotes
    exact .folder hfind (isListing_notesBelow (Tree.find_eq_ok hfind).1 (hwalk _ _ hfind))
  · cases hnotes

/-- Discovery lists one path after the other when all of them lead somewhere and every walk through
one of the folders comes upon everything below it. Otherwise it ends in the first path that leads
nowhere. -/
theorem discover_eq_flatten_listed (walk : Walk) (tree : Tree) (name : String) (paths : List Path)
    (hwalk : ∀ path ∈ paths, ∀ place barrier, tree.find path = .ok (place, .folder barrier) →
      tree.Walks path place (walk path)) :
    ((∀ path ∈ paths, tree.exists? path) → ∃ found,
      discover walk tree name paths = .ok found.flatten ∧
        List.Forall₂ (Listed tree name) paths found) ∧
    ∀ path, discover walk tree name paths = .error path ↔ ∃ before after,
      paths = before ++ path :: after ∧ (∀ path ∈ before, tree.exists? path) ∧
        ¬tree.exists? path := by
  constructor
  · intro hexist
    refine ⟨_, discover_eq_ok_iff.2 ⟨hexist, List.flatMap_def.symm⟩, ?_⟩
    have hnotes : List.Forall₂ (fun path notes => notesAt? walk tree name path = some notes) paths
        (paths.map fun path => (notesAt? walk tree name path).getD []) :=
      forall₂_notesAt?_iff.2 ⟨hexist, rfl⟩
    rw [List.forall₂_iff_zip] at hnotes ⊢
    refine ⟨hnotes.1, fun {path notes} hmem => ?_⟩
    exact listed_of_notesAt? (hwalk path (List.of_mem_zip hmem).1) (hnotes.2 hmem)
  · intro path
    exact discover_eq_error_iff

/-- A folder with two notes, of which the one comes first in the order of paths and the other in the
order of characters, named from the root on and from the folder next to it, a file by itself that
cannot be read, and a path that leads nowhere between two others. -/
theorem discover_eq_flatten_listed_nested :
    let tree := Tree.ofPaths "/home/work"
      [("docs/a-b/notes.md", .file (.ok [])), ("docs/a/notes.md", .file (.ok [])),
        ("docs/a/b.md", .file (.ok [])), ("docs/notes.md/readme", .file (.ok [])),
        ("../other.md", .file (.error .notPermitted)), ("/empty", .folder none),
        ("shut", .folder (some .notPermitted)), ("shut/notes.md", .file (.ok []))]
    let paths := ["/home/work/docs", "/empty", "../other.md", "../work/docs/a", "shut"]
    (∀ path ∈ paths, tree.exists? path) ∧
      discover tree.walk tree "notes.md" paths =
        .ok ["/home/work/docs/a/notes.md", "/home/work/docs/a-b/notes.md", "../other.md",
          "../work/docs/a/notes.md", "shut/notes.md"] ∧
      (∃ found, discover tree.walk tree "notes.md" paths = .ok found.flatten ∧
        List.Forall₂ (Listed tree "notes.md") paths found) ∧
      discover tree.walk tree "notes.md" ["docs", "shut/notes.md", "other.md"] =
        .error "shut/notes.md" := by
  intro tree paths
  have hexist : ∀ path ∈ paths, tree.exists? path := by decide +kernel
  have hwalk : ∀ paths : List Path, ∀ path ∈ paths, ∀ place barrier,
      tree.find path = .ok (place, .folder barrier) → tree.Walks path place (tree.walk path) :=
    fun _ _ _ _ _ => Tree.walks_walk
  refine ⟨hexist, by decide +kernel, ?_, ?_⟩
  · exact (discover_eq_flatten_listed tree.walk tree "notes.md" paths (hwalk paths)).1 hexist
  · exact ((discover_eq_flatten_listed tree.walk tree "notes.md" _ (hwalk _)).2 "shut/notes.md").2
      ⟨["docs"], ["other.md"], rfl, by decide +kernel, by decide +kernel⟩

end NoteCheck.Files
