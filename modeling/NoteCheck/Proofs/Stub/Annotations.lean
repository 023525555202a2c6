/-
# The names in annotations

A stub module declares the operations of a note with their types in canonical form. The names in
these texts are those for which the aliases are made, the words of containers, and primitive types.
The main statement, `hasMeaning_of_mem_identifiers`: in a stub module every name in an annotation
that begins with an upper-case letter has a meaning.
-/
import NoteCheck.Proofs.Stub.Aliases

namespace NoteCheck

namespace Signature

/-- An identifier in the canonical form of a type is in a name of the type, or it is the word of a
container or the name of a primitive type. -/
theorem TypeExpr.mem_names_of_mem_identifiers {e : TypeExpr} {word : List Char}
    (h : word ∈ Text.identifiers e.render.toList) : String.ofList word ∈ e.names ∨
      String.ofList word ∈ Stub.importedNames ∨ ∃ p : Primitive, String.ofList word = p.name := by
  have hsingle (name : String) (hname : Text.isIdentifier name.toList = true)
      (hword : word ∈ Text.identifiers name.toList) : String.ofList word = name := by
    rw [Text.identifiers_of_isIdentifier hname, List.mem_singleton] at hword
    rw [hword, String.ofList_toList]
  -- brackets, commas and blanks part identifiers, so that each stands in one component
  match e with
  | any =>
    rw [hsingle "Any" (by decide) h]
    exact .inr (.inl (by decide))
  | primitive p => exact .inr (.inr ⟨p, hsingle p.name (by cases p <;> decide) h⟩)
  | named name => exact .inl (List.mem_map_of_mem h)
  | generic container element =>
    rw [toList_render_generic, Text.identifiers_append_cons rfl, Text.identifiers_append_cons rfl,
      List.mem_append, List.mem_append] at h
    obtain h | h | h := h
    · rw [hsingle container.keyword (by cases container <;> decide) h]
      exact .inr (.inl (by cases container <;> decide))
    · exact mem_names_of_mem_identifiers (e := element) h
    · cases h
  | dict key value =>
    rw [toList_render_dict, Text.identifiers_append_cons rfl, Text.identifiers_append_cons rfl,
      List.cons_append, Text.identifiers_append_cons rfl, List.nil_append,
      ← List.nil_append (' ' :: _), Text.identifiers_append_cons rfl] at h
    simp only [List.mem_append] at h
    obtain h | (h | h | h) | h := h
    · rw [hsingle "Dict" (by decide) h]
      exact .inr (.inl (by decide))
    · exact (mem_names_of_mem_identifiers h).imp_left (List.mem_append_left _)
    · cases h
    · exact (mem_names_of_mem_identifiers h).imp_left (List.mem_append_right _)
    · cases h
  | tuple elements =>
    rw [toList_render_tuple, Text.identifiers_append_cons rfl, Text.identifiers_append_cons rfl,
      Text.identifiers_intercalate, List.flatMap_map, List.mem_append, List.mem_append] at h
    obtain h | h | h := h
    · rw [hsingle "Tuple" (by decide) h]
      exact .inr (.inl (by decide))
    · obtain ⟨e, he, h⟩ := List.mem_flatMap.1 h
      rw [names, namesOfAll_eq]
      exact (mem_names_of_mem_identifiers h).imp_left fun hname =>
        List.mem_flatMap.2 ⟨e, he, hname⟩
    · cases h

/-- The names in the types of the operations of a note are among those that it declares. -/
theorem Declarations.mem_names_of_mem_operations {text marker name : String} {operation : Operation}
    {e : TypeExpr} (h : operation ∈ (readDeclarations text marker).operations)
    (he : e ∈ operation.types) (hname : name ∈ e.names) :
    name ∈ (readDeclarations text marker).names := by
  obtain ⟨-, hmem, -, hnames⟩ := foldl_add
    (declared ((Note.sectionLines? text.toList marker.toList).getD []))
  obtain ⟨before, after, hsplit, -⟩ := (hmem operation).1 h
  refine (hnames name).2 ⟨operation, hsplit ▸ by simp, ?_⟩
  obtain he | he := List.mem_append.1 he
  · exact List.mem_append_left _ (List.mem_flatMap.2 ⟨e, he, hname⟩)
  · exact List.mem_append_right _ (List.mem_singleton.1 he ▸ hname)

end Signature

namespace Stub

open Signature

variable {operations : List Operation} {names : List String} {name : String} {e : TypeExpr}

/-- The constants of the language that begin with an upper-case letter. -/
def constants : List String := ["True", "False", "None"]

/-- A name has a meaning in a module: it is imported, a type variable, an operation, an alias, or a
constant of the language. -/
inductive HasMeaning (operations : List Operation) (names : List String) (name : String) : Prop
  | imported : name ∈ importedNames → HasMeaning operations names name
  | typeVariable : name ∈ ["T", "U"] → HasMeaning operations names name
  | operation : name ∈ operations.map Operation.name → HasMeaning operations names name
  | named : name ∈ (aliases operations names).map Prod.fst → HasMeaning operations names name
  | constant : name ∈ constants → HasMeaning operations names name

theorem HasMeaning.mem_boundNames (h : HasMeaning operations names name) :
    name ∈ boundNames operations names ∨ name ∈ constants := by
  rw [boundNames]
  cases h with
  | imported h => simp [h]
  | typeVariable h =>
    refine .inl (List.mem_append_left _ (List.mem_append_right _ ?_))
    exact (by decide : ["T", "U"] ⊆ ["T", "U", foldName]) h
  | operation h => exact .inl (List.mem_append_right _ h)
  | named h => simp [h]
  | constant h => exact .inr h

/-- Of the names of a note those that begin with an upper-case character have a meaning. -/
theorem HasMeaning.of_isCapital (hcapital : IsCapital name) (hname : name ∈ names) :
    HasMeaning operations names name := by
  have hreserved : ∀ name ∈ reservedNames, IsCapital name →
      name ∈ importedNames ∨ name ∈ ["T", "U"] ∨ name ∈ constants := by decide
  by_cases hres : name ∈ reservedNames
  · obtain h | h | h := hreserved name hres hcapital
    · exact .imported h
    · exact .typeVariable h
    · exact .constant h
  · by_cases hfree : name ∈ operations.map Operation.name
    · exact .operation hfree
    · exact .named (mem_alias_iff.2 ⟨hname, hfree, hres, hcapital⟩)

theorem isCapital_of_isUpper {word : List Char} (h : word.head?.any Char.isUpper = true) :
    IsCapital (String.ofList word) := by
  obtain ⟨c, hc, hupper⟩ := (Option.any_eq_true _ _).1 h
  have hascii : c.toNat < 0x80 := by
    delta Char.isUpper at hupper
    simp only [decide_eq_true_eq, UInt32.le_iff_toNat_le] at hupper
    exact Nat.lt_of_le_of_lt hupper.2 (by decide)
  rw [IsCapital, String.toList_ofList, hc, Option.any_some, Text.isUppercase_of_ascii hascii,
    hupper]

theorem HasMeaning.of_mem_identifiers_render (hnames : ∀ name ∈ e.names, name ∈ names)
    {word : List Char} (h : word ∈ Text.identifiers e.render.toList)
    (hupper : word.head?.any Char.isUpper = true) :
    HasMeaning operations names (String.ofList word) := by
  obtain h | h | ⟨p, h⟩ := TypeExpr.mem_names_of_mem_identifiers h
  · exact .of_isCapital (isCapital_of_isUpper hupper) (hnames _ h)
  · exact .imported h
  · have hcapital := isCapital_of_isUpper hupper
    rw [h] at hcapital
    exact absurd hcapital (by cases p <;> decide)

end Stub

namespace Verification

open Code Files Note Signature Stub

variable {config : Config} {path : Path} {text module : String}

/-- A stub module is made for the operations of its note and for names, among which are those in the
types of the operations. -/
theorem exists_eq_render (h : (inspect config path text).stub = some module) :
    let operations := (readDeclarations text config.signatureMarker).operations
    let block := extractBlock text config.lambdaHeading
    ∃ names, module = render operations names block.code ∧
      block.code.toList.getLast? = some '\n' ∧
      (∀ name ∈ names, Text.isIdentifier name.toList = true) ∧
      ∀ operation ∈ operations, ∀ e ∈ operation.types, ∀ name ∈ e.names, name ∈ names := by
  intro operations block
  by_cases happlicable : Applicable config text
  · rw [(inspect_of_applicable happlicable).1, Option.some.injEq, stubOf] at h
    have hdeclared : Sorted.Increasing id (readDeclarations text config.signatureMarker).names :=
      Declarations.increasing_names
    obtain ⟨-, hmem⟩ := Sorted.foldl_insert hdeclared block.identifiers
    refine ⟨_, h.symm, extractBlock_getLast? happlicable.block, fun name hname => ?_,
      fun operation hoperation e he name hname => ?_⟩
    · obtain hname | hname := (hmem name).1 hname
      · exact isIdentifier_of_mem_identifiers hname
      · exact Declarations.isIdentifier_of_mem_names hname
    · exact (hmem name).2 (.inr (Declarations.mem_names_of_mem_operations hoperation he hname))
  · rw [(inspect_of_not_applicable happlicable).1] at h
    cases h

/-- In a stub module every name in an annotation that begins with an upper-case letter has a
meaning: the lines before the code bind it, or it is a constant. -/
theorem hasMeaning_of_mem_identifiers (h : (inspect config path text).stub = some module) :
    let operations := (readDeclarations text config.signatureMarker).operations
    let code := (extractBlock text config.lambdaHeading).code
    ∃ lines names, module = render operations names code ∧
      module.toList = Text.unlines lines ++ code.toList ∧ (∀ line ∈ lines, '\n' ∉ line) ∧
      ∀ operation ∈ operations, (headText operation).toList ∈ lines ∧
        ∀ e ∈ operation.types, ∀ word ∈ Text.identifiers e.render.toList,
          word.head?.any Char.isUpper = true →
            HasMeaning operations names (String.ofList word) ∧
              (String.ofList word ∈ lines.flatMap boundIn ∨ String.ofList word ∈ constants) := by
  intro operations code
  obtain ⟨names, hmodule, hlast, hnames, htypes⟩ := exists_eq_render h
  have hoperations : ∀ o ∈ operations, o.IsShown :=
    fun o ho => Declarations.isShown_of_mem_operations ho
  refine ⟨(rows operations names).map Row.chars, names, hmodule, ?_,
    lineBreak_notMem_rows hoperations hnames, fun operation hoperation => ⟨?_, ?_⟩⟩
  · rw [hmodule, toList_render, ended, if_pos hlast, Row.unlines, Text.unlines, List.flatMap_map]
  · have hrow : Row.words 0 (headText operation) ∈ rows operations names := by
      have hhead : Row.words 0 (headText operation) ∈ operationRows operation := by
        simp [operationRows_eq]
      rw [rows]
      exact List.mem_append_left _ (List.mem_append_right _ (List.mem_flatMap.2
        ⟨operation, hoperation, hhead⟩))
    rw [← chars_words_zero]
    exact List.mem_map_of_mem hrow
  · intro e he word hword hupper
    have hmeaning : HasMeaning operations names (String.ofList word) :=
      .of_mem_identifiers_render (htypes operation hoperation e he) hword hupper
    rw [flatMap_boundIn_rows hoperations hnames]
    exact ⟨hmeaning, hmeaning.mem_boundNames⟩

/-- A name in brackets, in a type of which only the name is known, in a list. -/
theorem hasMeaning_of_bracketed :
    let text := "## DSL Operations\n`paint: Grid -> List (Row[Cell])`\n" ++
      "## Lambda Representation\n```\ndef f(x):\n    return paint(x)\n```\n"
    let operations := (readDeclarations text "## DSL Operations").operations
    ∃ module names, (inspect {} "notes.md" text).stub = some module ∧
      module = render operations names "def f(x):\n    return paint(x)\n" ∧
      HasMeaning operations names "Cell" := by
  intro text operations
  obtain ⟨module, hmodule⟩ : ∃ module, (inspect {} "notes.md" text).stub = some module :=
    Option.isSome_iff_exists.1 (by decide +kernel)
  have hcode : (extractBlock text "## Lambda Representation").code =
      "def f(x):\n    return paint(x)\n" := by decide +kernel
  obtain ⟨paint, hpaint, e, he, hword⟩ : ∃ paint ∈ operations, ∃ e ∈ paint.types,
      "Cell".toList ∈ Text.identifiers e.render.toList := by decide +kernel
  obtain ⟨lines, names, hrender, -, -, hall⟩ := hasMeaning_of_mem_identifiers hmodule
  exact ⟨module, names, hmodule, hcode ▸ hrender, ((hall paint hpaint).2 e he _ hword rfl).1⟩

end Verification

end NoteCheck
