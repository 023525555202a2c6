/-
# Pieces of a text

A text as a list of pieces that is built from the end: a character joins the first piece, and a
cut puts an empty piece before it.
-/

namespace NoteCheck.Text

/-- Pieces with one more character at the beginning of the first. -/
def consFirst (c : Char) : List (List Char) → List (List Char)
  | [] => [[c]]
  | piece :: pieces => (c :: piece) :: pieces

/-- The pieces between the characters of a class. There is always one piece more than there are
such characters. -/
def piecesBetween (isCut : Char → Bool) : List Char → List (List Char)
  | [] => [[]]
  | c :: cs =>
    if isCut c then [] :: piecesBetween isCut cs else consFirst c (piecesBetween isCut cs)

/-- No character of the class is left in the pieces. -/
theorem not_isCut_of_mem_piecesBetween {isCut : Char → Bool} {cs piece : List Char}
    (h : piece ∈ piecesBetween isCut cs) : ∀ c ∈ piece, isCut c = false := by
  induction cs generalizing piece with
  | nil =>
    rw [List.mem_singleton.1 h]
    exact nofun
  | cons c cs ih =>
    rw [piecesBetween] at h
    split at h
    · rcases List.mem_cons.1 h with rfl | h
      · exact nofun
      · exact ih h
    · rename_i hc
      generalize piecesBetween isCut cs = pieces at ih h
      cases pieces with
      | nil =>
        rw [List.mem_singleton.1 h]
        intro d hd
        rw [List.mem_singleton.1 hd]
        exact Bool.eq_false_iff.2 hc
      | cons first pieces =>
        rcases List.mem_cons.1 h with rfl | h
        · intro d hd
          rcases List.mem_cons.1 hd with rfl | hd
          · exact Bool.eq_false_iff.2 hc
          · exact ih List.mem_cons_self d hd
        · exact ih (List.mem_cons_of_mem first h)

/-- The lines of a text. A line ends with a line break, which may have a carriage return before
it; an empty last line does not count. -/
def lines : List Char → List (List Char)
  | [] => []
  | '\n' :: cs => [] :: lines cs
  | '\r' :: '\n' :: cs => [] :: lines cs
  | c :: cs => consFirst c (lines cs)

/-- What is stripped off the beginning of a text and what is left make up the text. -/
theorem append_of_isPrefixOf? {a cs rest : List Char} (h : a.isPrefixOf? cs = some rest) :
    a ++ rest = cs := by
  induction a generalizing cs with
  | nil => exact (Option.some.inj h).symm
  | cons c a ih =>
    cases cs with
    | nil => exact nomatch h
    | cons d cs =>
      change (if c == d then a.isPrefixOf? cs else none) = some rest at h
      rw [Option.ite_none_right_eq_some, beq_iff_eq] at h
      rw [h.1, List.cons_append, ih h.2]

end NoteCheck.Text
