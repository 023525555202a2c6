/-
# Text outside brackets

Round and square brackets nest, and either closes either. Main statement: `intercalate_split`,
splitting a text at a separator outside brackets loses nothing.
-/
import NoteCheck.Text.Pieces

namespace NoteCheck.Signature

/-- An opening bracket. -/
def isOpening (c : Char) : Bool := c == '(' || c == '['

/-- A closing bracket. -/
def isClosing (c : Char) : Bool := c == ')' || c == ']'

namespace TopLevel

/-- What a character adds to the number of open brackets. -/
def weight (c : Char) : Int := if isOpening c then 1 else if isClosing c then -1 else 0

/-- The parts of a text between the places outside brackets where the separator stands, with the
number of brackets that are open before the text, and the number of characters at its beginning
that still belong to a separator. Closing brackets too many make the number negative, and then
nothing is outside until it is zero again. The number is of any size: a counter of 32 bits differs
only in texts with 2 ^ 31 brackets and more. -/
def splitFrom (separator : List Char) : Nat → Int → List Char → List (List Char)
  | _, _, [] => [[]]
  | skip + 1, depth, _ :: cs => splitFrom separator skip depth cs
  | 0, depth, c :: cs =>
    if depth = 0 ∧ separator.isPrefixOf (c :: cs) then
      [] :: splitFrom separator (separator.length - 1) 0 cs
    else Text.consFirst c (splitFrom separator 0 (depth + weight c) cs)

/-- The parts of a text between the separators outside brackets. -/
def split (separator text : List Char) : List (List Char) := splitFrom separator 0 0 text

/-- The text between a bracket and the end of the text, if the bracket is closed by the last
character. The text begins after the bracket, and the number says how many further brackets are
open. -/
def inside? : Nat → List Char → Option (List Char)
  | _, [] => none
  | depth, c :: cs =>
    if isClosing c && depth == 0 then if cs.isEmpty then some [] else none
    else
      let depth := if isOpening c then depth + 1 else if isClosing c then depth - 1 else depth
      (inside? depth cs).map (c :: ·)

/-! ## Splitting loses nothing -/

theorem splitFrom_ne_nil (separator : List Char) (skip : Nat) (depth : Int) (cs : List Char) :
    splitFrom separator skip depth cs ≠ [] := by
  fun_induction splitFrom separator skip depth cs with
  | case1 => simp
  | case2 _ _ _ _ ih => exact ih
  | case3 => simp
  | case4 depth c cs _ _ =>
    cases splitFrom separator 0 (depth + weight c) cs <;> simp [Text.consFirst]

theorem splitFrom_skip (separator : List Char) (skip : Nat) (depth : Int) (cs : List Char) :
    splitFrom separator skip depth cs = splitFrom separator 0 depth (cs.drop skip) := by
  induction skip generalizing cs with
  | zero => rfl
  | succ skip ih =>
    cases cs with
    | nil => simp [splitFrom]
    | cons c cs => simpa [splitFrom] using ih cs

/-- A character at the beginning of the first part is a character at the beginning of the text. -/
theorem intercalate_consFirst (separator : List Char) (c : Char) {parts : List (List Char)}
    (h : parts ≠ []) :
    separator.intercalate (Text.consFirst c parts) = c :: separator.intercalate parts := by
  match parts, h with
  | [p], _ => simp [Text.consFirst]
  | p :: q :: rest, _ => simp [Text.consFirst]

/-- An empty first part is a separator at the beginning of the text. -/
theorem intercalate_nil_cons (separator : List Char) {parts : List (List Char)} (h : parts ≠ []) :
    separator.intercalate ([] :: parts) = separator ++ separator.intercalate parts := by
  match parts, h with
  | p :: rest, _ => simp

/-- Joining the parts of a text with the separator gives the text back. -/
theorem intercalate_split {separator : List Char} (hne : separator ≠ []) (text : List Char) :
    separator.intercalate (split separator text) = text := by
  suffices h : ∀ (n : Nat) (depth : Int) (cs : List Char), cs.length ≤ n →
      separator.intercalate (splitFrom separator 0 depth cs) = cs from
    h text.length 0 text (Nat.le_refl _)
  intro n
  induction n with
  | zero =>
    intro depth cs hlen
    obtain rfl := List.length_eq_zero_iff.1 (Nat.le_zero.1 hlen)
    simp [splitFrom]
  | succ n ih =>
    intro depth cs hlen
    cases cs with
    | nil => simp [splitFrom]
    | cons c cs =>
      rw [List.length_cons, Nat.add_le_add_iff_right] at hlen
      rw [splitFrom]
      split
      · rename_i hcut
        obtain ⟨rest, hrest⟩ := List.isPrefixOf_iff_prefix.1 hcut.2
        rw [intercalate_nil_cons _ (splitFrom_ne_nil _ _ _ _), splitFrom_skip,
          ih _ _ (by simp; omega)]
        cases separator with
        | nil => exact absurd rfl hne
        | cons s separator =>
          obtain ⟨rfl, rfl⟩ := List.cons.inj hrest
          simp
      · rw [intercalate_consFirst _ _ (splitFrom_ne_nil _ _ _ _), ih _ _ hlen]

/-- Parts joined with a separator are no longer than the joined list, each by itself. -/
theorem length_le_intercalate (separator : List Char) {parts : List (List Char)}
    {p : List Char} (h : p ∈ parts) : p.length ≤ (separator.intercalate parts).length := by
  induction parts with
  | nil => simp at h
  | cons q rest ih =>
    cases rest with
    | nil => simp_all
    | cons r rest =>
      rw [List.intercalate_cons_cons]
      rcases List.mem_cons.1 h with rfl | h
      · simp only [List.length_append]
        omega
      · have := ih h
        simp only [List.length_append]
        omega

/-- A part is no longer than the text. -/
theorem length_le_of_mem_split {separator text p : List Char} (hne : separator ≠ [])
    (h : p ∈ split separator text) : p.length ≤ text.length := by
  have hle := length_le_intercalate separator h
  rwa [intercalate_split hne] at hle

/-- What a bracket that closes at the end encloses is shorter than what follows the bracket. -/
theorem length_lt_of_inside? {depth : Nat} {cs inner : List Char}
    (h : inside? depth cs = some inner) : inner.length < cs.length := by
  induction cs generalizing depth inner with
  | nil => simp [inside?] at h
  | cons c cs ih =>
    rw [inside?] at h
    split at h
    · split at h
      · obtain rfl := Option.some.inj h
        simp
      · simp at h
    · obtain ⟨t, ht, rfl⟩ := Option.map_eq_some_iff.1 h
      have := ih ht
      simp only [List.length_cons]
      omega

end TopLevel

end NoteCheck.Signature
