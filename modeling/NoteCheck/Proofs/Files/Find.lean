/-
# What a path means

A path that leads somewhere leads where its components say. So two spellings with the same
components that both lead somewhere lead to the same place.
-/
import NoteCheck.Files.Tree
import NoteCheck.Proofs.Results

namespace NoteCheck.Files

namespace Tree

variable {tree : Tree}

/-- Texts between slashes lead where the components lead for which they stand. -/
theorem eq_of_follow {place place' : List String} {pieces : List (List Char)}
    (h : tree.follow place pieces = .ok place') :
    place' = (pieces.filterMap Path.component?).foldl Component.enter place := by
  induction pieces generalizing place with
  | nil => exact (Except.ok.inj h).symm
  | cons piece pieces ih =>
    rw [follow] at h
    split at h
    · cases h
    · cases h
    · split at h
      · rename_i hempty
        subst hempty
        exact ih h
      · split at h
        · cases h
        · rw [ih h]
          cases hcomponent : Path.component? piece with
          | none =>
            rw [List.filterMap_cons_none hcomponent]
            rfl
          | some component =>
            rw [List.filterMap_cons_some hcomponent]
            rfl

/-- The components of a path lead from where it begins to where its texts between slashes do. -/
theorem placeFrom_here (tree : Tree) (path : Path) : path.placeFrom tree.here =
    (path.pieces.filterMap Path.component?).foldl Component.enter (tree.start path) := by
  unfold Path.placeFrom Path.components start
  -- A slash at the beginning leads to the root, and a dot at the beginning nowhere else.
  split
  · rename_i hslash
    rw [if_pos (by rw [hslash]; rfl)]
    rfl
  · rename_i hslash
    rw [if_neg fun h => (List.head?_eq_some_iff.1 h).elim hslash]
    rfl
  · rename_i hslash _
    rw [if_neg fun h => (List.head?_eq_some_iff.1 h).elim hslash]

/-- What is found at a path is what is at the place to which its components lead. -/
theorem find_eq_ok {path : Path} {found : List String × Entry} (h : tree.find path = .ok found) :
    tree.entry? found.1 = some found.2 ∧ found.1 = path.placeFrom tree.here := by
  rw [find] at h
  split at h
  · cases h
  · obtain ⟨place, hfollow, h⟩ := Results.bind_eq_ok.1 h
    split at h
    · rename_i entry hentry
      obtain rfl := Results.pure_eq_ok.1 h
      exact ⟨hentry, (eq_of_follow hfollow).trans (placeFrom_here tree path).symm⟩
    · cases h

/-- Two spellings of a path that both lead somewhere lead to the same place. -/
theorem find_eq_of_components_eq {path path' : Path} {found found' : List String × Entry}
    (h : tree.find path = .ok found) (h' : tree.find path' = .ok found')
    (hcomponents : path.components = path'.components) : found = found' := by
  obtain ⟨hentry, hplace⟩ := find_eq_ok h
  obtain ⟨hentry', hplace'⟩ := find_eq_ok h'
  have hplaces : found.1 = found'.1 := by
    rw [hplace, hplace', Path.placeFrom, Path.placeFrom, hcomponents]
  rw [hplaces, hentry'] at hentry
  exact Prod.ext hplaces (Option.some.inj hentry).symm

/-- What is read at a path are the bytes of a file there, as a text. -/
theorem exists_find_of_read {path : Path} {text : String} (h : tree.read path = .ok text) :
    ∃ place bytes, tree.find path = .ok (place, .file (.ok bytes)) ∧
      (Text.Utf8.decode? bytes).map String.ofList = some text := by
  obtain ⟨bytes, hbytes, h⟩ := Results.bind_eq_ok.1 h
  obtain ⟨⟨place, entry⟩, hfind, hentry⟩ := Results.bind_eq_ok.1 hbytes
  cases entry with
  | folder => cases hentry
  | file content =>
    obtain rfl : content = .ok bytes := hentry
    refine ⟨place, bytes, hfind, ?_⟩
    split at h
    · rename_i text' htext
      obtain rfl := Results.pure_eq_ok.1 h
      rw [htext]
      rfl
    · cases h

/-- Two spellings of a path to a text that can be read give the same text. -/
theorem read_eq_of_components_eq {path path' : Path} {text text' : String}
    (h : tree.read path = .ok text) (h' : tree.read path' = .ok text')
    (hcomponents : path.components = path'.components) : text = text' := by
  obtain ⟨place, bytes, hfind, htext⟩ := exists_find_of_read h
  obtain ⟨place', bytes', hfind', htext'⟩ := exists_find_of_read h'
  obtain ⟨rfl, hbytes⟩ := Prod.mk.inj (find_eq_of_components_eq hfind hfind' hcomponents)
  obtain rfl := Except.ok.inj (Entry.file.inj hbytes)
  rw [htext] at htext'
  exact Option.some.inj htext'

end Tree

end NoteCheck.Files
