/-
# The files of a batch

Every module of a batch has a file of its own. Notes whose modules would have one name are told
apart by numbers, and a name with a number may be that of another note's module, too, so the search
goes on until a name is free. The main statement, `isNaming_moduleNames_and_writes_writeModules`:
the search ends, names are words that code can import, and after the files of a batch are written,
each of them holds the text of its module. Nothing is assumed of the folder for the files, of the
files that are there before, or of the writes that the system refuses.
-/
import NoteCheck.Checker.Program
import NoteCheck.Proofs.Files.Listing
import NoteCheck.Proofs.Results
import Mathlib.Data.List.Forall2
import Mathlib.Data.List.Nodup

namespace NoteCheck.Checker

open Files Verification

/-! ## The search for a name -/

/-- The names that are tried for a module, one after the other: the name itself, and then the name
with each number from two on. -/
def candidate (name : String) : Nat → String
  | 0 => name
  | n + 1 => s!"{name}_{n + 2}"

/-- Every candidate after the first ends with its number. -/
theorem toList_candidate_succ (name : String) (n : Nat) :
    (candidate name (n + 1)).toList = name.toList ++ '_' :: Nat.toDigits 10 (n + 2) := by
  simp [candidate, toString, Nat.toList_repr]

/-- Different numbers are written differently. -/
theorem toDigits_injective : Function.Injective (Nat.toDigits 10) :=
  Function.LeftInverse.injective (g := (Nat.ofDigitChars 10 · 0)) fun _ =>
    Nat.ofDigitChars_toDigits (by decide) (Nat.le_refl 10)

/-- No two candidates for a module have one name. -/
theorem candidate_injective (name : String) : Function.Injective (candidate name) := by
  have hzero : ∀ n, candidate name (n + 1) ≠ candidate name 0 := by
    intro n h
    have hlength := congrArg (List.length ∘ String.toList) h
    rw [Function.comp, Function.comp, toList_candidate_succ, candidate, List.length_append,
      List.length_cons] at hlength
    omega
  intro m n h
  cases m with
  | zero =>
    cases n with
    | zero => rfl
    | succ n => exact absurd h.symm (hzero n)
  | succ m =>
    cases n with
    | zero => exact absurd h (hzero m)
    | succ n =>
      rw [← String.toList_inj, toList_candidate_succ, toList_candidate_succ,
        List.append_cancel_left_eq, List.cons.injEq] at h
      have := toDigits_injective h.2
      omega

/-- Of as many candidates as there are taken names, and one more, one is free. -/
theorem exists_candidate_notMem (taken : List String) (name : String) :
    ∃ n ≤ taken.length, candidate name n ∉ taken := by
  by_contra! h
  have hsub : (List.range (taken.length + 1)).map (candidate name) ⊆ taken := by
    intro tried htried
    obtain ⟨n, hn, rfl⟩ := List.mem_map.1 htried
    exact h n (Nat.lt_succ_iff.1 (List.mem_range.1 hn))
  have hle := (List.nodup_range.map (candidate_injective name)).length_le_of_subset hsub
  rw [List.length_map, List.length_range] at hle
  omega

/-- The search tries one candidate after the other, and the first that is free ends it. -/
theorem exists_freeName_eq (taken : List String) (name : String) :
    ∃ n ≤ taken.length, freeName taken name = candidate name n ∧ candidate name n ∉ taken ∧
      ∀ k < n, candidate name k ∈ taken := by
  obtain ⟨m, hm, hmfree⟩ := exists_candidate_notMem taken name
  have hfree : ∃ n, candidate name n ∉ taken := ⟨m, hmfree⟩
  have hle : Nat.find hfree ≤ taken.length := (Nat.find_min' hfree hmfree).trans hm
  have htaken : ∀ k < Nat.find hfree, candidate name k ∈ taken := fun k hk =>
    not_not.1 (Nat.find_min hfree hk)
  refine ⟨Nat.find hfree, hle, ?_, Nat.find_spec hfree, htaken⟩
  have hfound := Nat.find_spec hfree
  generalize Nat.find hfree = n at hle htaken hfound
  rw [freeName]
  cases n with
  | zero => exact if_neg (by simpa [candidate] using hfound)
  | succ n =>
    -- The least free candidate has a number, which is among those that are tried.
    have hname : name ∈ taken := htaken 0 n.succ_pos
    have hfirst : (List.range (taken.length + 1)).find?
        ((!taken.contains ·) ∘ fun i => s!"{name}_{i + 2}") = some n := by
      rw [List.find?_range_eq_some]
      refine ⟨by simpa [candidate] using hfound, List.mem_range.2 (by omega), fun k hk => ?_⟩
      simpa [candidate] using htaken (k + 1) (by omega)
    rw [if_pos (by simpa using hname)]
    dsimp only
    rw [List.find?_map, hfirst]
    rfl

/-- The name that is found is free. -/
theorem freeName_notMem (taken : List String) (name : String) : freeName taken name ∉ taken := by
  obtain ⟨n, -, hname, hfree, -⟩ := exists_freeName_eq taken name
  rwa [hname]

/-! ## Names one after the other -/

/-- The names of modules for notes: each note has the first of its candidates that no note before
it has, and of the candidates there are at most as many before it as there are notes. -/
structure IsNaming (paths : List Path) (names : List String) : Prop where
  length_eq : names.length = paths.length
  first_free : ∀ i path, paths[i]? = some path → ∃ n ≤ i,
    names[i]? = some (candidate (moduleName path) n) ∧
      candidate (moduleName path) n ∉ names.take i ∧
      ∀ k < n, candidate (moduleName path) k ∈ names.take i

/-- Each note has one name. -/
theorem length_moduleNames (taken : List String) (paths : List Path) :
    (moduleNames taken paths).length = paths.length := by
  induction paths generalizing taken with
  | nil => rfl
  | cons path paths ih => rw [moduleNames, List.length_cons, ih, List.length_cons]

/-- A name is told apart from those that were taken at first, and from those before it. -/
theorem getElem?_moduleNames (taken : List String) (paths : List Path) (i : Nat) :
    (moduleNames taken paths)[i]? = paths[i]?.map fun path =>
      freeName (((moduleNames taken paths).take i).reverse ++ taken) (moduleName path) := by
  induction paths generalizing taken i with
  | nil => rfl
  | cons path paths ih =>
    rw [moduleNames]
    cases i with
    | zero => rfl
    | succ i =>
      rw [List.getElem?_cons_succ, ih, List.getElem?_cons_succ, List.take_succ_cons,
        List.reverse_cons, List.append_assoc, List.singleton_append]

/-- No name is one that was taken, and none is given twice. -/
theorem nodup_moduleNames (taken : List String) (paths : List Path) :
    (∀ name ∈ moduleNames taken paths, name ∉ taken) ∧ (moduleNames taken paths).Nodup := by
  -- The name of the first note is taken for the others.
  induction paths generalizing taken with
  | nil => exact ⟨nofun, List.nodup_nil⟩
  | cons path paths ih =>
    obtain ⟨hothers, hnodup⟩ := ih (freeName taken (moduleName path) :: taken)
    rw [moduleNames, List.forall_mem_cons, List.nodup_cons]
    refine ⟨⟨freeName_notMem taken _, fun name hname htaken => ?_⟩, fun hname => ?_, hnodup⟩
    · exact hothers name hname (List.mem_cons_of_mem _ htaken)
    · exact hothers _ hname List.mem_cons_self

/-- The names that are given are the first free candidates. -/
theorem isNaming_moduleNames (paths : List Path) : IsNaming paths (moduleNames [] paths) where
  length_eq := length_moduleNames [] paths
  first_free := by
    intro i path hpath
    have hname := getElem?_moduleNames [] paths i
    rw [hpath, Option.map_some, List.append_nil] at hname
    obtain ⟨n, hn, heq, hfree, htaken⟩ :=
      exists_freeName_eq ((moduleNames [] paths).take i).reverse (moduleName path)
    rw [heq] at hname
    rw [List.length_reverse, List.length_take] at hn
    exact ⟨n, by omega, hname, by simpa using hfree, by simpa using htaken⟩

/-! ## Names that code can import -/

/-- The name of a module is a word that code can import. -/
theorem isIdentifier_moduleName (path : Path) :
    Text.isIdentifier (moduleName path).toList = true := by
  have hchars : ∀ text, ∀ c ∈ sanitize text, Text.isIdentifierChar c = true := by
    intro text
    refine List.forall_mem_map.2 fun c _ => ?_
    split
    · assumption
    · rfl
  rw [moduleName, String.toList_ofList, Text.isIdentifier_iff]
  generalize htext : (path.folderName?.getD "").toList ++ ['_'] ++
    (path.fileStem?.getD "").toList = text
  have hne : sanitize text ≠ [] := by
    rw [← htext, sanitize]
    simp
  obtain ⟨c, cs, hcons⟩ := List.exists_cons_of_ne_nil hne
  have hcs := hchars text
  rw [hcons] at hcs ⊢
  split
  · exact ⟨List.forall_mem_cons.2 ⟨rfl, hcs⟩, List.cons_ne_nil _ _, by rintro d ⟨⟩; rfl⟩
  · rename_i hdigit
    refine ⟨hcs, List.cons_ne_nil _ _, ?_⟩
    rintro d ⟨⟩
    simpa using hdigit

/-- A number after such a word leaves it one. -/
theorem isIdentifier_candidate {name : String} (h : Text.isIdentifier name.toList = true)
    (n : Nat) :
    Text.isIdentifier (candidate name n).toList = true := by
  cases n with
  | zero => exact h
  | succ n =>
    obtain ⟨hchars, hne, hhead⟩ := Text.isIdentifier_iff.1 h
    rw [toList_candidate_succ, Text.isIdentifier_iff, List.head?_append_of_ne_nil _ hne]
    refine ⟨List.forall_mem_append.2 ⟨hchars, List.forall_mem_cons.2 ⟨rfl, fun c hc => ?_⟩⟩,
      by simp [hne], hhead⟩
    exact Text.isIdentifierChar_of_isDigit
      (Nat.isDigit_of_mem_toDigits (by decide) (Nat.le_refl 10) hc)

/-- The names that are given are words that code can import. -/
theorem isIdentifier_of_mem_moduleNames {paths : List Path} {name : String}
    (h : name ∈ moduleNames [] paths) : Text.isIdentifier name.toList = true := by
  obtain ⟨i, hi⟩ := List.mem_iff_getElem?.1 h
  rw [getElem?_moduleNames, Option.map_eq_some_iff] at hi
  obtain ⟨path, -, rfl⟩ := hi
  obtain ⟨n, -, hname, -⟩ := exists_freeName_eq (((moduleNames [] paths).take i).reverse ++ [])
    (moduleName path)
  rw [hname]
  exact isIdentifier_candidate (isIdentifier_moduleName path) n

/-- No two notes have a file of one name. -/
theorem nodup_scratchNames (paths : List Path) : (scratchNames paths).Nodup :=
  (nodup_moduleNames [] paths).2.map fun a b h => by
    rwa [← String.toList_inj, String.toList_append, String.toList_append,
      List.append_cancel_right_eq, String.toList_inj] at h

/-- The names of files are names that stand in a folder. -/
theorem isName_of_mem_scratchNames {paths : List Path} {name : String}
    (h : name ∈ scratchNames paths) : IsName name := by
  obtain ⟨word, hword, rfl⟩ := List.mem_map.1 h
  obtain ⟨hchars, -, -⟩ := Text.isIdentifier_iff.1 (isIdentifier_of_mem_moduleNames hword)
  have hlast : (word ++ ".py").toList.getLast? = some 'y' := by
    rw [String.toList_append, List.getLast?_append_of_ne_nil _ (by decide)]
    rfl
  refine ⟨?_, ?_, ?_, fun hslash => ?_⟩
  · intro heq
    rw [heq] at hlast
    cases hlast
  · intro heq
    rw [heq] at hlast
    exact absurd hlast (by decide)
  · intro heq
    rw [heq] at hlast
    exact absurd hlast (by decide)
  · rw [String.toList_append, List.mem_append] at hslash
    rcases hslash with hslash | hslash
    · exact absurd (hchars _ hslash) (by decide)
    · exact absurd hslash (by decide)

/-! ## The files of a batch -/

variable {host : Host} {store store' : Store} {file : Path × List UInt8}
  {files : List (Path × List UInt8)}

/-- Each note has one file. -/
theorem length_scratchNames (paths : List Path) : (scratchNames paths).length = paths.length := by
  rw [scratchNames, List.length_map, length_moduleNames]

/-- The files have the names of the modules, in the order of the batch. -/
theorem map_fst_moduleFiles (scratch : Path) (batch : Batch) :
    (moduleFiles scratch batch).map Prod.fst =
      (scratchNames (batch.map Module.path)).map (scratch.join [·]) := by
  have hlength :
      (scratchNames (batch.map Module.path)).length ≤ (batch.map Module.text).length := by
    rw [length_scratchNames, List.length_map, List.length_map]
  rw [moduleFiles, List.map_map, scratchFiles]
  conv_rhs => rw [← List.map_fst_zip hlength, List.map_map]
  rfl

/-- The files are for the texts of the modules, in the order of the batch. -/
theorem map_snd_moduleFiles (scratch : Path) (batch : Batch) :
    (moduleFiles scratch batch).map Prod.snd = batch.map (Text.Utf8.encode ·.text) := by
  have hlength :
      (batch.map Module.text).length ≤ (scratchNames (batch.map Module.path)).length := by
    rw [length_scratchNames, List.length_map, List.length_map]
  rw [moduleFiles, List.map_map, scratchFiles]
  conv_rhs => rw [← Function.comp_def Text.Utf8.encode Module.text, ← List.map_map,
    ← List.map_snd_zip hlength, List.map_map]
  rfl

/-- No two modules have one file, however the paths to it are spelled. -/
theorem nodup_components_moduleFiles (scratch : Path) (batch : Batch) :
    ((moduleFiles scratch batch).map (·.1.components)).Nodup := by
  have hcomponents : (moduleFiles scratch batch).map (·.1.components) =
      (scratchNames (batch.map Module.path)).map fun name =>
        scratch.components ++ [.name name] := by
    rw [show (fun file : Path × List UInt8 => file.1.components) =
      Path.components ∘ Prod.fst from rfl,
      ← List.map_map, map_fst_moduleFiles, List.map_map]
    refine List.map_congr_left fun name hname => ?_
    exact Path.components_join_singleton scratch (isName_of_mem_scratchNames hname)
  rw [hcomponents]
  refine (nodup_scratchNames (batch.map Module.path)).map fun name name' h => ?_
  rw [List.append_cancel_left_eq, List.singleton_inj] at h
  exact Component.name.inj h

/-! ## What is written -/

/-- A file is written when the system does not refuse it. -/
theorem writeFile_eq_ok : writeFile host store file = .ok store' ↔
    host.refusal? store file.1 file.2 = none ∧ store' = store.write file.1 file.2 := by
  rw [writeFile]
  cases host.refusal? store file.1 file.2 with
  | some cause => exact iff_of_false nofun nofun
  | none =>
    constructor
    · rintro ⟨⟩
      exact ⟨rfl, rfl⟩
    · rintro ⟨-, rfl⟩
      rfl

/-- The error of a write is why the system refuses it. -/
theorem writeFile_eq_error {e : RunError} : writeFile host store file = .error e ↔
    ∃ cause, host.refusal? store file.1 file.2 = some cause ∧ e = .access file.1 cause := by
  rw [writeFile]
  cases host.refusal? store file.1 file.2 with
  | some cause =>
    constructor
    · rintro ⟨⟩
      exact ⟨cause, rfl, rfl⟩
    · rintro ⟨_, ⟨⟩, rfl⟩
      rfl
  | none => exact iff_of_false nofun nofun

/-- What files hold after some of them are written. -/
structure Written (files : List (Path × List UInt8)) (store store' : Store) : Prop where
  held : ∀ file ∈ files, store'.read? file.1 = some file.2
  kept : ∀ path : Path, path.components ∉ files.map (·.1.components) →
    store'.read? path = store.read? path

/-- One file more is written before others that are not at its path. -/
theorem Written.cons (hnew : file.1.components ∉ files.map (·.1.components))
    (h : Written files (store.write file.1 file.2) store') :
    Written (file :: files) store store' := by
  constructor
  · intro written hwritten
    rcases List.mem_cons.1 hwritten with rfl | hwritten
    -- The files that come later leave this one as it was written.
    · rw [h.kept written.1 hnew, Store.read?_write, if_pos rfl]
    · exact h.held written hwritten
  · intro path hpath
    rw [List.map_cons, List.mem_cons, not_or] at hpath
    rw [h.kept path hpath.2, Store.read?_write, if_neg hpath.1]

/-- Files at different paths that are written one after the other hold what was written. -/
theorem written_of_foldlM (hnodup : (files.map (·.1.components)).Nodup)
    (h : files.foldlM (writeFile host) store = .ok store') : Written files store store' := by
  induction files generalizing store with
  | nil =>
    obtain rfl := Results.pure_eq_ok.1 h
    exact ⟨nofun, fun _ _ => rfl⟩
  | cons file files ih =>
    obtain ⟨hnew, hnodup⟩ := List.nodup_cons.1 hnodup
    rw [List.foldlM_cons] at h
    obtain ⟨next, hnext, h⟩ := Results.bind_eq_ok.1 h
    obtain ⟨-, rfl⟩ := writeFile_eq_ok.1 hnext
    exact Written.cons hnew (ih hnodup h)

/-- The writing of files ends in an error at the first one that the system refuses. -/
theorem exists_of_foldlM_eq_error {e : RunError}
    (h : files.foldlM (writeFile host) store = .error e) :
    ∃ before file after store' cause, files = before ++ file :: after ∧
      before.foldlM (writeFile host) store = .ok store' ∧
      host.refusal? store' file.1 file.2 = some cause ∧ e = .access file.1 cause := by
  induction files generalizing store with
  | nil => cases h
  | cons file files ih =>
    rw [List.foldlM_cons] at h
    rcases Results.bind_eq_error.1 h with h | ⟨next, hnext, h⟩
    · obtain ⟨cause, hrefusal, rfl⟩ := writeFile_eq_error.1 h
      exact ⟨[], file, files, store, cause, rfl, rfl, hrefusal, rfl⟩
    · obtain ⟨before, refused, after, store', cause, rfl, hbefore, hrefusal, rfl⟩ := ih h
      refine ⟨file :: before, refused, after, store', cause, rfl, ?_, hrefusal, rfl⟩
      rw [List.foldlM_cons]
      exact Results.bind_eq_ok.2 ⟨next, hnext, hbefore⟩

/-- How the files for a batch are written in a folder. -/
inductive Writes (host : Host) (scratch : Path) (batch : Batch) :
    Except RunError (Store × List Path) → Prop
  /-- Each module has a file of its own that holds its text, and every other file is as it was. -/
  | written {store : Store} {files : List Path}
      (paths_eq : files = (scratchNames (batch.map Module.path)).map (scratch.join [·]))
      (nodup : (files.map Path.components).Nodup)
      (held : List.Forall₂ (fun m file => store.read? file = some (Text.Utf8.encode m.text))
        batch files)
      (kept : ∀ path : Path, path.components ∉ files.map Path.components →
        store.read? path = host.store.read? path) :
      Writes host scratch batch (.ok (store, files))
  /-- The system refuses the file of a module, and what was written before it is there. -/
  | refused {before after : List (Path × List UInt8)} {file : Path × List UInt8} {store : Store}
      {cause : SystemError} (files_eq : moduleFiles scratch batch = before ++ file :: after)
      (held : Written before host.store store)
      (refusal : host.refusal? store file.1 file.2 = some cause) :
      Writes host scratch batch (.error (.access file.1 cause))

/-- Files that hold what was written hold the texts of the modules. -/
theorem forall₂_read?_of_written {scratch : Path} {batch : Batch}
    (h : Written (moduleFiles scratch batch) store store') :
    List.Forall₂ (fun m file => store'.read? file = some (Text.Utf8.encode m.text)) batch
      ((moduleFiles scratch batch).map Prod.fst) := by
  have htexts : List.Forall₂ (fun m file => Text.Utf8.encode m.text = file.2) batch
      (moduleFiles scratch batch) := by
    have heq := (map_snd_moduleFiles scratch batch).symm
    rwa [← List.forall₂_eq_eq_eq, List.forall₂_map_left_iff, List.forall₂_map_right_iff] at heq
  rw [List.forall₂_map_right_iff]
  rw [List.forall₂_iff_zip] at htexts ⊢
  refine ⟨htexts.1, fun {m file} hmem => ?_⟩
  rw [h.held file (List.of_mem_zip hmem).2, htexts.2 hmem]

/-- The files for a batch are written one after the other, up to the first that the system refuses.
-/
theorem writes_writeModules (host : Host) (scratch : Path) (batch : Batch) :
    Writes host scratch batch (writeModules host scratch batch) := by
  have hnodup := nodup_components_moduleFiles scratch batch
  cases hstore : (moduleFiles scratch batch).foldlM (writeFile host) host.store with
  | ok store =>
    have hresult : writeModules host scratch batch =
        .ok (store, (moduleFiles scratch batch).map Prod.fst) := by
      rw [writeModules, hstore]
      rfl
    have hwritten := written_of_foldlM hnodup hstore
    rw [hresult]
    refine .written (map_fst_moduleFiles scratch batch) ?_ (forall₂_read?_of_written hwritten) ?_
    · rwa [List.map_map]
    · intro path hpath
      rw [List.map_map] at hpath
      exact hwritten.kept path hpath
  | error e =>
    obtain ⟨before, file, after, store, cause, hfiles, hbefore, hrefusal, rfl⟩ :=
      exists_of_foldlM_eq_error hstore
    have hresult : writeModules host scratch batch = .error (.access file.1 cause) := by
      rw [writeModules, hstore]
      rfl
    rw [hfiles, List.map_append] at hnodup
    rw [hresult]
    exact .refused hfiles (written_of_foldlM hnodup.of_append_left hbefore) hrefusal

/-- Whatever the paths of notes, the search for each name ends, and the files have different names,
each a word that code can import before its ending. So, whatever the host and the folder, the
modules of a batch are written to different files, and none is written over another: unless the
system refuses a file, each of them holds the text of its module in the end. -/
theorem isNaming_moduleNames_and_writes_writeModules :
    (∀ paths : List Path, IsNaming paths (moduleNames [] paths) ∧ (scratchNames paths).Nodup ∧
      ∀ name ∈ scratchNames paths, ∃ word : String,
        Text.isIdentifier word.toList = true ∧ name = word ++ ".py") ∧
    ∀ (host : Host) (scratch : Path) (batch : Batch),
      Writes host scratch batch (writeModules host scratch batch) := by
  refine ⟨fun paths => ⟨isNaming_moduleNames paths, nodup_scratchNames paths, fun name hname => ?_⟩,
    writes_writeModules⟩
  obtain ⟨word, hword, rfl⟩ := List.mem_map.1 hname
  exact ⟨word, isIdentifier_of_mem_moduleNames hword, rfl⟩

/-- The second note takes the name that the third one would have by itself, and the file of a run
before is there. -/
theorem isNaming_moduleNames_and_writes_writeModules_of_clash :
    let batch : Batch := [⟨"x/a-b/notes.md", "one"⟩, ⟨"y/a_b/notes.md", "two"⟩,
      ⟨"a_b/notes_2.md", "three"⟩]
    let host : Host := {
      temporary := "/tmp"
      scratch := .ok "/tmp/scratch"
      store := [("/tmp/scratch/a_b_notes.py", []), ("/tmp/other", [0])]
      refusal? := fun _ _ _ => none
      launch := fun _ _ _ => .error .notFound }
    moduleName "a_b/notes_2.md" = "a_b_notes_2" ∧
      (∃ word : String, Text.isIdentifier word.toList = true ∧ "a_b_notes_2_2.py" = word ++ ".py") ∧
      ∃ store, writeModules host "/tmp/scratch" batch = .ok (store, ["/tmp/scratch/a_b_notes.py",
          "/tmp/scratch/a_b_notes_2.py", "/tmp/scratch/a_b_notes_2_2.py"]) ∧
        store.read? "/tmp/scratch/a_b_notes.py" = some (Text.Utf8.encode "one") ∧
        store.read? "/tmp/scratch/a_b_notes_2.py" = some (Text.Utf8.encode "two") ∧
        store.read? "/tmp/scratch/a_b_notes_2_2.py" = some (Text.Utf8.encode "three") ∧
        store.read? "/tmp/other" = some [0] := by
  intro batch host
  have hnames : scratchNames (batch.map Module.path) =
      ["a_b_notes.py", "a_b_notes_2.py", "a_b_notes_2_2.py"] := by
    decide +kernel
  have hmem : "a_b_notes_2_2.py" ∈ scratchNames (batch.map Module.path) := by
    rw [hnames]
    decide
  refine ⟨by decide +kernel, (isNaming_moduleNames_and_writes_writeModules.1 _).2.2 _ hmem, ?_⟩
  have hwrites := isNaming_moduleNames_and_writes_writeModules.2 host "/tmp/scratch" batch
  generalize writeModules host "/tmp/scratch" batch = result at hwrites
  -- no writing is refused here, so that all files are written
  cases hwrites with
  | refused files_eq held refusal => cases refusal
  | @written store files paths_eq nodup held kept =>
    rw [hnames] at paths_eq
    have hfiles : files = ["/tmp/scratch/a_b_notes.py", "/tmp/scratch/a_b_notes_2.py",
        "/tmp/scratch/a_b_notes_2_2.py"] := by
      rw [paths_eq]
      decide +kernel
    subst hfiles
    simp only [batch, List.forall₂_cons] at held
    obtain ⟨hone, htwo, hthree, -⟩ := held
    refine ⟨store, rfl, hone, htwo, hthree, ?_⟩
    rw [kept "/tmp/other" (by decide +kernel)]
    decide +kernel

end NoteCheck.Checker
