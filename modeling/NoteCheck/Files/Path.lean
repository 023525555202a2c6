/-
# Paths

A path is kept as it is written. What it means is its list of components: repeated slashes count
once, and a dot counts only where it begins the path. Two spellings with the same components are
the same path, and paths are ordered by their components.
-/
import NoteCheck.Text.Pieces

namespace NoteCheck.Files

/-- A part of a path. -/
inductive Component where
  /-- The slash at the beginning. -/
  | root
  /-- A dot at the beginning. -/
  | here
  /-- Two dots. -/
  | up
  /-- A name. -/
  | name (name : String)
  deriving DecidableEq, Repr

namespace Component

/-- The place of a kind of component in the order. -/
def rank : Component → Nat
  | root => 0
  | here => 1
  | up => 2
  | name _ => 3

/-- Components are ordered by kind, and names by their characters. -/
def before : Component → Component → Bool
  | name a, name b => a < b
  | a, b => a.rank < b.rank

instance : LT Component := ⟨fun a b => a.before b⟩

instance (a b : Component) : Decidable (a < b) := inferInstanceAs (Decidable (a.before b = true))

/-- The name in a component, if there is one. -/
def name? : Component → Option String
  | name n => some n
  | _ => none

/-- The place to which a component leads from a place. Places are lists of names from the root on,
and nothing is above the root. -/
def enter (place : List String) : Component → List String
  | root => []
  | here => place
  | up => place.dropLast
  | name n => place ++ [n]

end Component

/-- A text that can be the name of a file or folder. -/
structure IsName (name : String) : Prop where
  ne_nil : name.toList ≠ []
  ne_here : name.toList ≠ ['.']
  ne_up : name.toList ≠ ['.', '.']
  slash_notMem : '/' ∉ name.toList

/-- A path as it is written. -/
abbrev Path := String

namespace Path

/-- The texts between the slashes of a path. -/
def pieces (path : Path) : List (List Char) := Text.piecesBetween (· == '/') path.toList

/-- The component that a text between slashes stands for, if any. -/
def component? (piece : List Char) : Option Component :=
  if piece = [] ∨ piece = ['.'] then none
  else if piece = ['.', '.'] then some .up
  else some (.name (String.ofList piece))

/-- The components of a path. -/
def components (path : Path) : List Component :=
  let named := path.pieces.filterMap component?
  match path.toList, path.pieces with
  | '/' :: _, _ => .root :: named
  | _, ['.'] :: _ => .here :: named
  | _, _ => named

/-- The names among the components of a path are names. -/
theorem isName_of_mem_components {path : Path} {name : String}
    (h : .name name ∈ path.components) : IsName name := by
  have hpieces : .name name ∈ path.pieces.filterMap component? := by
    rw [components] at h
    split at h
    · exact (List.mem_cons.1 h).resolve_left nofun
    · exact (List.mem_cons.1 h).resolve_left nofun
    · exact h
  obtain ⟨piece, hpiece, hname⟩ := List.mem_filterMap.1 hpieces
  rw [component?] at hname
  split at hname
  · cases hname
  · rename_i hempty
    split at hname
    · cases hname
    · rename_i hup
      cases hname
      rw [not_or] at hempty
      rw [← String.toList_ofList (l := piece)] at hempty hup hpiece
      exact ⟨hempty.1, hempty.2, hup, fun hslash =>
        Bool.noConfusion (Text.not_isCut_of_mem_piecesBetween hpiece '/' hslash)⟩

/-- The place to which the components of a path lead from a place. -/
def placeFrom (place : List String) (path : Path) : List String :=
  path.components.foldl Component.enter place

/-- A path leads to a place by names. -/
theorem isName_of_mem_placeFrom {place : List String} (hplace : ∀ name ∈ place, IsName name)
    (path : Path) : ∀ name ∈ path.placeFrom place, IsName name := by
  have hcomponents : ∀ name, .name name ∈ path.components → IsName name :=
    fun _ => isName_of_mem_components
  rw [placeFrom]
  generalize path.components = components at hcomponents
  induction components generalizing place with
  | nil => exact hplace
  | cons component components ih =>
    refine ih ?_ fun name hname => hcomponents name (List.mem_cons_of_mem component hname)
    cases component with
    | root => exact nofun
    | here => exact hplace
    | up => exact fun name hname => hplace name (List.dropLast_subset place hname)
    | name n =>
      intro name hname
      rcases List.mem_append.1 hname with hname | hname
      · exact hplace name hname
      · rw [List.mem_singleton.1 hname]
        exact hcomponents n List.mem_cons_self

/-- The components of the path above a path. The root has none above it. -/
def above (path : Path) : List Component :=
  match path.components.getLast? with
  | some .root | none => []
  | some _ => path.components.dropLast

/-- The name at the end of a path. -/
def fileName? (path : Path) : Option String := path.components.getLast?.bind Component.name?

/-- The name at the end of the path above a path. -/
def folderName? (path : Path) : Option String := path.above.getLast?.bind Component.name?

/-- A name up to its last dot. A dot at the beginning does not count. -/
def stem (name : List Char) : List Char :=
  let beforeDot := (name.reverse.dropWhile (· != '.')).tail.reverse
  if beforeDot.isEmpty then name else beforeDot

/-- The name at the end of a path, up to its last dot. -/
def fileStem? (path : Path) : Option String :=
  path.fileName?.map fun name => String.ofList (stem name.toList)

/-- A path with names after it. -/
def join (path : Path) (names : List String) : Path :=
  names.foldl (fun path name =>
    if path.isEmpty || path.toList.getLast? = some '/' then path ++ name
    else path ++ "/" ++ name) path

end Path

end NoteCheck.Files
