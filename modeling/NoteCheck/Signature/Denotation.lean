/-
# The type that a text denotes

Types are written in canonical form, as in `List[Tuple[int, int]]`, or informally, as in
`List Tuple A, B` or `Dict K -> V`. Every text denotes a type: one that fits neither notation is a
name, without its blanks. A text is taken apart in layers; `Shape.ofText` takes off the outermost
layer, and the main statement, `Shape.length_lt_of_mem_parts`, says that what is left of the text
is shorter.
-/
import NoteCheck.Signature.TopLevel
import NoteCheck.Signature.TypeExpr
import NoteCheck.Text.Blank

namespace NoteCheck.Signature

/-- What follows the word of a container. -/
inductive Operand where
  /-- The text between brackets that close at the end. -/
  | bracketed (inner : List Char)
  /-- The text after a blank. -/
  | informal (text : List Char)
  deriving DecidableEq, Repr

namespace Operand

/-- The text of an operand. -/
def text : Operand → List Char
  | bracketed text | informal text => text

/-- The operand after a word, if the text begins with the word and has one. -/
def after? (word : String) (text : List Char) : Option Operand :=
  match word.toList.isPrefixOf? text with
  | none => none
  | some [] => none
  | some (c :: rest) =>
    if c = '[' then (TopLevel.inside? 0 rest).map bracketed
    else if Text.isBlank c then
      let operand := Text.trim rest
      if operand.isEmpty then none else some (informal operand)
    else none

/-- What separates the key of a dict from its value. -/
def dictSeparator : Operand → List Char
  | bracketed _ => [',']
  | informal _ => ['-', '>']

/-- The key and the value of a dict. A missing value is the empty text. -/
def keyValue (operand : Operand) : List Char × List Char :=
  match TopLevel.split operand.dictSeparator operand.text with
  | key :: value :: values => (key, operand.dictSeparator.intercalate (value :: values))
  | _ => (operand.text, [])

end Operand

/-- The outermost layer of a text that denotes a type. -/
inductive Shape where
  | blank
  /-- Parentheses around the whole text. -/
  | group (inner : List Char)
  | generic (container : Container) (element : List Char)
  | dict (key value : List Char)
  | tuple (elements : List (List Char))
  | name (text : List Char)
  deriving DecidableEq, Repr

namespace Shape

/-- The text between parentheses around the whole text. -/
def group? : List Char → Option (List Char)
  | '(' :: rest => TopLevel.inside? 0 rest
  | _ => none

/-- The layer that the word of a container makes. -/
def generic? (text : List Char) : Option Shape :=
  Container.all.findSome? fun container =>
    (Operand.after? container.keyword text).map fun operand => generic container operand.text

/-- The layer that the word of a dict makes. -/
def dict? (text : List Char) : Option Shape :=
  (Operand.after? "Dict" text).map fun operand => dict operand.keyValue.1 operand.keyValue.2

/-- The layer that the word of a tuple makes, or commas without it. -/
def tuple? (text : List Char) : Option Shape :=
  match Operand.after? "Tuple" text with
  | some operand => some (tuple (TopLevel.split [','] operand.text))
  | none =>
    match TopLevel.split [','] text with
    | first :: second :: rest => some (tuple (first :: second :: rest))
    | _ => none

/-- The outermost layer of a text without blanks around it. -/
def ofTrimmed (text : List Char) : Shape :=
  if text.isEmpty then blank
  else
    (((group? text).map group <|> generic? text) <|> dict? text <|> tuple? text).getD (name text)

/-- The outermost layer of a text. -/
def ofText (raw : List Char) : Shape := ofTrimmed (Text.trim raw)

/-- The parts of the text that denote types by themselves. -/
def parts : Shape → List (List Char)
  | blank | name _ => []
  | group inner | generic _ inner => [inner]
  | dict key value => [key, value]
  | tuple elements => elements

end Shape

/-! ## Layers are shorter than the text -/

/-- The operand after a word that is not empty is shorter than the text. -/
theorem Operand.length_lt_of_after? {word : String} {text : List Char} {operand : Operand}
    (hword : word.toList ≠ []) (h : after? word text = some operand) :
    operand.text.length + 1 < text.length := by
  have hlen : ∀ {rest : List Char}, word.toList.isPrefixOf? text = some rest →
      rest.length < text.length := by
    intro rest hrest
    have hpos := List.length_pos_iff.2 hword
    rw [← Text.append_of_isPrefixOf? hrest, List.length_append]
    omega
  unfold after? at h
  split at h
  · simp at h
  · simp at h
  · rename_i c rest hrest
    have hlt := hlen hrest
    rw [List.length_cons] at hlt
    split at h
    · obtain ⟨inner, hinner, rfl⟩ := Option.map_eq_some_iff.1 h
      have := TopLevel.length_lt_of_inside? hinner
      simp only [Operand.text]
      omega
    · split at h
      · dsimp only at h
        split at h
        · simp at h
        · obtain rfl := Option.some.inj h
          have := Text.length_trim_le rest
          simp only [Operand.text]
          omega
      · simp at h

/-- The key and the value of a dict are no longer than its operand. -/
theorem Operand.length_keyValue_le (operand : Operand) :
    operand.keyValue.1.length ≤ operand.text.length ∧
      operand.keyValue.2.length ≤ operand.text.length := by
  have hne : operand.dictSeparator ≠ [] := by cases operand <;> simp [dictSeparator]
  unfold keyValue
  split
  · rename_i key value values hsplit
    have hjoin := congrArg List.length (TopLevel.intercalate_split hne operand.text)
    rw [hsplit, List.intercalate_cons_cons] at hjoin
    simp only [List.length_append] at hjoin
    constructor <;> dsimp only <;> omega
  · simp

namespace Shape

/-- The parts of a text that a comma divides are shorter than the text. -/
theorem length_lt_of_split {text first second p : List Char} {rest : List (List Char)}
    (hsplit : TopLevel.split [','] text = first :: second :: rest)
    (h : p ∈ first :: second :: rest) : p.length < text.length := by
  have hjoin := congrArg List.length (TopLevel.intercalate_split (List.cons_ne_nil ',' []) text)
  rw [hsplit, List.intercalate_cons_cons] at hjoin
  simp only [List.length_append, List.length_singleton] at hjoin
  rcases List.mem_cons.1 h with rfl | h
  · omega
  · have := TopLevel.length_le_intercalate [','] h
    omega

theorem length_lt_of_mem_parts_ofTrimmed {text p : List Char} (h : p ∈ (ofTrimmed text).parts) :
    p.length < text.length := by
  unfold ofTrimmed at h
  split at h
  · simp [parts] at h
  -- one layer after the other, in the order in which they are looked for
  cases hgroup : group? text with
  | some inner =>
    obtain rfl : p = inner := by simpa [hgroup, parts] using h
    unfold group? at hgroup
    split at hgroup
    · have := TopLevel.length_lt_of_inside? hgroup
      simp only [List.length_cons]
      omega
    · simp at hgroup
  | none =>
  cases hgeneric : generic? text with
  | some layer =>
    obtain ⟨container, -, hlayer⟩ := List.exists_of_findSome?_eq_some hgeneric
    obtain ⟨operand, hoperand, rfl⟩ := Option.map_eq_some_iff.1 hlayer
    obtain rfl : p = operand.text := by simpa [hgroup, hgeneric, parts] using h
    have := Operand.length_lt_of_after? (by cases container <;> decide) hoperand
    omega
  | none =>
  cases hdict : dict? text with
  | some layer =>
    obtain ⟨operand, hoperand, rfl⟩ := Option.map_eq_some_iff.1 hdict
    have hp : p = operand.keyValue.1 ∨ p = operand.keyValue.2 := by
      simpa [hgroup, hgeneric, hdict, parts] using h
    have hlt := Operand.length_lt_of_after? (by decide) hoperand
    have hle := operand.length_keyValue_le
    rcases hp with rfl | rfl <;> omega
  | none =>
  simp only [hgroup, hgeneric, hdict, Option.map_none, Option.orElse_eq_orElse,
    Option.orElse_none] at h
  unfold tuple? at h
  split at h
  · rename_i operand hoperand
    have hlt := Operand.length_lt_of_after? (by decide) hoperand
    have hle := TopLevel.length_le_of_mem_split (List.cons_ne_nil ',' []) h
    omega
  · split at h
    · rename_i hsplit
      exact length_lt_of_split hsplit h
    · simp [parts] at h

/-- The parts of a layer are shorter than the text. -/
theorem length_lt_of_mem_parts {raw p : List Char} (h : p ∈ (ofText raw).parts) :
    p.length < raw.length :=
  Nat.lt_of_lt_of_le (length_lt_of_mem_parts_ofTrimmed h) (Text.length_trim_le raw)

end Shape

/-! ## Types of texts -/

namespace TypeExpr

/-- The type that a name denotes, which may be a spelling of a primitive type. -/
def ofName (text : List Char) : TypeExpr :=
  let name := String.ofList text
  if name = "Any" then any
  else
    match Primitive.ofSpelling? name with
    | some p => primitive p
    | none => named (String.ofList (text.filter (!Text.isBlank ·)))

/-- The type that a text denotes. -/
def ofChars (raw : List Char) : TypeExpr :=
  match _h : Shape.ofText raw with
  | .blank => any
  | .group inner => ofChars inner
  | .generic container element => generic container (ofChars element)
  | .dict key value => dict (ofChars key) (ofChars value)
  | .tuple elements => tuple (elements.attach.map fun element => ofChars element.1)
  | .name text => ofName text
termination_by raw.length
decreasing_by
  · exact Shape.length_lt_of_mem_parts (by simp [_h, Shape.parts])
  · exact Shape.length_lt_of_mem_parts (by simp [_h, Shape.parts])
  · exact Shape.length_lt_of_mem_parts (by simp [_h, Shape.parts])
  · exact Shape.length_lt_of_mem_parts (by simp [_h, Shape.parts])
  · exact Shape.length_lt_of_mem_parts (by simpa [_h, Shape.parts] using element.2)

/-- A type is read layer by layer. -/
theorem ofChars_eq (raw : List Char) :
    ofChars raw = match Shape.ofText raw with
      | .blank => any
      | .group inner => ofChars inner
      | .generic container element => generic container (ofChars element)
      | .dict key value => dict (ofChars key) (ofChars value)
      | .tuple elements => tuple (elements.map ofChars)
      | .name text => ofName text := by
  rw [ofChars]
  split <;> simp [*]

/-- The type that a text denotes. -/
def ofText (raw : String) : TypeExpr := ofChars raw.toList

end TypeExpr

end NoteCheck.Signature
