/-
# Reading a text

Steps that take something from the beginning of a text and leave the rest. A step that fails
belongs to the format that is read; the steps here never fail.
-/

namespace NoteCheck.Text

variable {m : Type → Type} [Monad m] [MonadStateOf (List Char) m]

/-- The text begins with another. -/
def startsWith (text : List Char) : m Bool := return text.isPrefixOf (← get)

/-- Takes a text if it stands there. -/
def skip? (text : List Char) : m Bool := do
  match text.isPrefixOf? (← get) with
  | some rest => set rest; return true
  | none => return false

/-- Takes the characters of a class as far as they go. -/
def takeWhile (p : Char → Bool) : m (List Char) := do
  let cs ← get
  set (cs.dropWhile p)
  return cs.takeWhile p

end NoteCheck.Text
