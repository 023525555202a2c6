/-
# Sorted lists

Lists in strictly increasing order of a key, into which elements are put at their place. They
hold one element for each key. Where an element with the same key is there already, the caller
says what becomes of the two.
-/

namespace NoteCheck.Sorted

variable {α κ : Type} [LT κ] [DecidableLT κ]

/-- A list with an element at the place of its key. An element `old` of the same key becomes
`meet old`. -/
def insertWith (key : α → κ) (meet : α → α) (a : α) : List α → List α
  | [] => [a]
  | b :: others =>
    if key a < key b then a :: b :: others
    else if key b < key a then b :: insertWith key meet a others
    else meet b :: others

/-- A sorted list of keys with one more key. -/
def insert (k : κ) (keys : List κ) : List κ := insertWith id id k keys

/-- The keys of a list, sorted and without repetition. -/
def ofList (keys : List κ) : List κ := keys.foldl (fun sorted k => insert k sorted) []

/-- A sorted list with an element that replaces any of the same key. -/
def put (key : α → κ) (a : α) (elements : List α) : List α :=
  insertWith key (fun _ => a) a elements

/-- A list with an element behind all those whose keys its own does not come before. -/
def place (key : α → κ) (a : α) : List α → List α
  | [] => [a]
  | b :: others => if key a < key b then a :: b :: others else b :: place key a others

/-- The elements of a list in the order of a key. Elements of the same key keep their order. -/
def sortBy (key : α → κ) (elements : List α) : List α :=
  elements.foldl (fun sorted a => place key a sorted) []

end NoteCheck.Sorted
