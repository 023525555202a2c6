/-
# What declarations are made of

The names in a type are made of the characters of the text that denotes it, and the names of
operations and types are identifiers. The main statement, `isShown_of_mem_operations`: an
operation that a note declares can be shown on one line.
-/
import NoteCheck.Proofs.Signature.Canonical
import NoteCheck.Proofs.Signature.Declarations

namespace NoteCheck

/-! ## Lines and pieces -/

namespace Text

/-- No line of a text holds a line break. -/
theorem lineBreak_notMem_of_mem_lines {cs line : List Char} (h : line ∈ lines cs) :
    '\n' ∉ line := by
  induction cs using lines.induct generalizing line with
  | case1 => cases h
  | case2 cs ih | case3 cs ih =>
    obtain rfl | h := List.mem_cons.1 h
    · exact List.not_mem_nil
    · exact ih h
  | case4 c cs hbreak hreturn ih =>
    have hc : '\n' ≠ c := fun hc => hbreak hc.symm
    rw [lines.eq_4 c cs hbreak hreturn] at h
    cases hlines : lines cs with
    | nil =>
      rw [hlines, consFirst, List.mem_singleton] at h
      rw [h, List.mem_singleton]
      exact hc
    | cons first others =>
      rw [hlines] at h ih
      obtain rfl | h := List.mem_cons.1 h
      · exact List.not_mem_cons_of_ne_of_not_mem hc (ih List.mem_cons_self)
      · exact ih (List.mem_cons_of_mem _ h)

end Text

namespace Note

/-- The lines after a marker are lines of the text. -/
theorem mem_of_mem_afterMarker? {marker line : List Char} {lines rest : List (List Char)}
    (h : afterMarker? marker lines = some rest) (hline : line ∈ rest) : line ∈ lines := by
  induction lines with
  | nil => cases h
  | cons first lines ih =>
    rw [afterMarker?] at h
    split at h
    · obtain rfl := Option.some.inj h
      exact List.mem_cons_of_mem _ hline
    · exact List.mem_cons_of_mem _ (ih h)

/-- The lines up to a heading are lines of the text. -/
theorem mem_of_mem_untilHeading {level : Option Nat} {opening : Option (List Char)}
    {line : List Char} {lines : List (List Char)} (h : line ∈ untilHeading level opening lines) :
    line ∈ lines := by
  induction lines generalizing opening with
  | nil => cases opening <;> cases h
  | cons first lines ih =>
    have hcons : ∀ {opening}, line ∈ first :: untilHeading level opening lines →
        line ∈ first :: lines := by
      intro opening hmem
      obtain rfl | hmem := List.mem_cons.1 hmem
      · exact List.mem_cons_self
      · exact List.mem_cons_of_mem _ (ih hmem)
    cases opening with
    | some marks => exact hcons h
    | none =>
      rw [untilHeading] at h
      split at h
      · exact hcons h
      · split at h
        · cases h
        · exact hcons h

/-- The lines of a section are lines of the text. -/
theorem mem_lines_of_mem_sectionLines? {text marker line : List Char}
    (h : line ∈ (sectionLines? text marker).getD []) : line ∈ Text.lines text := by
  rw [sectionLines?] at h
  cases hrest : afterMarker? (Text.trim marker) (Text.lines text) with
  | none =>
    rw [hrest] at h
    cases h
  | some rest =>
    rw [hrest] at h
    exact mem_of_mem_afterMarker? hrest (mem_of_mem_untilHeading h)

end Note

namespace Signature

variable {p : Char → Prop}

namespace TopLevel

/-- A character of a part is one of the joined text. -/
theorem mem_intercalate_of_mem {separator part : List Char} {parts : List (List Char)} {c : Char}
    (hpart : part ∈ parts) (hc : c ∈ part) : c ∈ separator.intercalate parts := by
  induction parts with
  | nil => cases hpart
  | cons first parts ih =>
    cases parts with
    | nil =>
      rw [List.intercalate_singleton]
      rwa [← List.mem_singleton.1 hpart]
    | cons second parts =>
      rw [List.intercalate_cons_cons, List.append_assoc, List.mem_append]
      obtain rfl | hpart := List.mem_cons.1 hpart
      · exact .inl hc
      · exact .inr (List.mem_append_right _ (ih hpart))

/-- A character of a part is one of the text that is split. -/
theorem mem_of_mem_split {separator text part : List Char} {c : Char} (hne : separator ≠ [])
    (hpart : part ∈ split separator text) (hc : c ∈ part) : c ∈ text := by
  rw [← intercalate_split hne text]
  exact mem_intercalate_of_mem hpart hc

end TopLevel

/-! ## The characters of a layer -/

namespace Operand

/-- A character of an operand is one of the text in which it follows a word. -/
theorem mem_of_mem_text {word : String} {text : List Char} {operand : Operand} {c : Char}
    (h : after? word text = some operand) (hc : c ∈ operand.text) : c ∈ text := by
  cases operand with
  | bracketed inner =>
    obtain ⟨d, -, -, rfl⟩ := after?_eq_bracketed_iff.1 h
    have hmem : c ∈ inner := hc
    simp [hmem]
  | informal operand =>
    obtain ⟨b, rest, -, rfl, rfl, -⟩ := after?_eq_informal_iff.1 h
    have hrest : c ∈ rest := Text.mem_of_mem_trim hc
    simp [hrest]

/-- What is split off a dict is part of it. -/
theorem mem_of_mem_keyValue {operand : Operand} {c : Char}
    (hc : c ∈ operand.keyValue.1 ∨ c ∈ operand.keyValue.2) : c ∈ operand.text := by
  have hne : operand.dictSeparator ≠ [] := by cases operand <;> exact List.cons_ne_nil _ _
  rw [keyValue] at hc
  split at hc
  · rename_i key value values hsplit
    rw [← TopLevel.intercalate_split hne operand.text, hsplit, List.intercalate_cons_cons]
    obtain hc | hc := hc
    · exact List.mem_append_left _ (List.mem_append_left _ hc)
    · exact List.mem_append_right _ hc
  · obtain hc | hc := hc
    · exact hc
    · cases hc

end Operand

/-- The parts of a text are made of its characters. -/
theorem Shape.Layer.mem_of_mem_parts {text part : List Char} {shape : Shape} {c : Char}
    (h : Layer text shape) (hpart : part ∈ shape.parts) (hc : c ∈ part) : c ∈ text := by
  cases h with
  | blank | name => cases hpart
  | group hgroup =>
    obtain rfl := List.mem_singleton.1 hpart
    obtain ⟨d, -, -, rfl⟩ := group?_eq_some_iff.1 hgroup
    simp [hc]
  | generic hoperand =>
    obtain rfl := List.mem_singleton.1 hpart
    exact Operand.mem_of_mem_text hoperand hc
  | dict hoperand =>
    refine Operand.mem_of_mem_text hoperand (Operand.mem_of_mem_keyValue ?_)
    obtain rfl | hpart := List.mem_cons.1 hpart
    · exact .inl hc
    · obtain rfl := List.mem_singleton.1 hpart
      exact .inr hc
  | tuple hoperand =>
    exact Operand.mem_of_mem_text hoperand
      (TopLevel.mem_of_mem_split (List.cons_ne_nil _ _) hpart hc)
  | commas _ _ hsplit =>
    rw [parts, ← hsplit] at hpart
    exact TopLevel.mem_of_mem_split (List.cons_ne_nil _ _) hpart hc

/-! ## The characters of types -/

namespace TypeExpr

/-- The names in a type are made of the characters of the text that denotes it. -/
theorem namedBy_of_forall {cs : List Char} (h : ∀ c ∈ cs, p c) :
    (ofChars cs).NamedBy fun name => ∀ c ∈ name.toList, p c := by
  refine namedBy_ofChars (motive := fun cs => ∀ c ∈ cs, p c) ?_ ?_ cs h
  · intro cs shape hcs hlayer part hpart c hc
    exact hcs c (Text.mem_of_mem_trim (hlayer.mem_of_mem_parts hpart hc))
  · intro cs hcs _ c hc
    rw [String.toList_ofList] at hc
    exact hcs c (Text.mem_of_mem_trim (List.mem_filter.1 hc).1)

/-- The names that occur in types are identifiers. -/
theorem isIdentifier_of_mem_names {e : TypeExpr} {name : String} (h : name ∈ e.names) :
    Text.isIdentifier name.toList = true := by
  match e with
  | any | primitive _ => cases h
  | named whole =>
    obtain ⟨word, hword, rfl⟩ := List.mem_map.1 h
    rw [String.toList_ofList]
    exact (Text.mem_identifiers_iff.1 hword).1
  | generic _ element => exact isIdentifier_of_mem_names (e := element) h
  | dict key value =>
    obtain h | h := List.mem_append.1 h
    · exact isIdentifier_of_mem_names h
    · exact isIdentifier_of_mem_names h
  | tuple elements =>
    have h : name ∈ namesOfAll elements := h
    rw [namesOfAll_eq] at h
    obtain ⟨e, he, h⟩ := List.mem_flatMap.1 h
    exact isIdentifier_of_mem_names h

end TypeExpr

/-! ## The characters of operations -/

namespace Operation

/-- The names in the types of an operation are identifiers. -/
theorem isIdentifier_of_mem_typeNames {operation : Operation} {name : String}
    (h : name ∈ operation.typeNames) : Text.isIdentifier name.toList = true := by
  obtain h | h := List.mem_append.1 h
  · obtain ⟨e, -, h⟩ := List.mem_flatMap.1 h
    exact TypeExpr.isIdentifier_of_mem_names h
  · exact TypeExpr.isIdentifier_of_mem_names h

/-- An operation that is shown on one line: its name is an identifier, and no type in it holds a
line break. -/
structure IsShown (operation : Operation) : Prop where
  name : Text.isIdentifier operation.name.toList = true
  types : ∀ e ∈ operation.types, '\n' ∉ e.render.toList

/-- An operation that is declared on one line is shown on one line. -/
theorem isShown_of_ofDeclaration? {text : List Char} {operation : Operation}
    (h : ofDeclaration? text = some operation) (htext : '\n' ∉ text) : operation.IsShown := by
  -- a canonical form has no characters but those of the text and of its own spelling
  have hrender : ∀ part : List Char, (∀ c ∈ part, c ∈ text) →
      '\n' ∉ (TypeExpr.ofChars part).render.toList := by
    intro part hpart hmem
    have hchars : ∀ c ∈ part, c ≠ '\n' := fun c hc heq => htext (heq ▸ hpart c hc)
    exact TypeExpr.forall_mem_render
      (fun c hc => TypeExpr.ne_of_isIdentifierChar (by decide) hc)
      (List.all_iff_forall_prop.1 (by decide)) (TypeExpr.namedBy_of_forall hchars) _ hmem rfl
  rw [ofDeclaration?] at h
  split at h
  · cases h
  · rename_i c signature hsignature
    have hsuffix : ∀ c ∈ signature, c ∈ text := fun c hc =>
      (List.dropWhile_suffix _).mem (hsignature ▸ List.mem_cons_of_mem _ hc)
    dsimp only at h
    split at h
    · rename_i hdeclared
      obtain rfl := Option.some.inj h
      simp only [Bool.and_eq_true, decide_eq_true_eq] at hdeclared
      obtain ⟨⟨hname, hlength⟩, -⟩ := hdeclared
      have hsegment : ∀ segment ∈ TopLevel.split arrow signature, ∀ c ∈ segment, c ∈ text :=
        fun segment hmem c hc => hsuffix c (TopLevel.mem_of_mem_split (by decide) hmem hc)
      refine ⟨by rwa [String.toList_ofList], ?_⟩
      refine List.forall_mem_append.2 ⟨fun e he => ?_, List.forall_mem_singleton.2 ?_⟩
      · obtain ⟨group, hgroup, he⟩ := List.mem_flatMap.1 he
        obtain ⟨domain, hdomain, rfl⟩ := List.mem_map.1 he
        obtain ⟨part, hpart, rfl⟩ := List.mem_map.1 (List.mem_filter.1 hdomain).1
        refine hrender _ fun c hc => hsegment group ((List.dropLast_sublist _).mem hgroup) c ?_
        exact TopLevel.mem_of_mem_split (by decide) hpart (Text.mem_of_mem_trim hc)
      · have hne : TopLevel.split arrow signature ≠ [] := TopLevel.splitFrom_ne_nil _ _ _ _
        rw [List.getLastD_eq_getLast?, List.getLast?_eq_some_getLast hne, Option.getD_some]
        exact hrender _ (hsegment _ (List.getLast_mem hne))
    · cases h

end Operation

/-- The quoted pieces are pieces of the text. -/
theorem mem_of_mem_quotedPieces {piece : List Char} {pieces : List (List Char)}
    (h : piece ∈ quotedPieces pieces) : piece ∈ pieces := by
  induction pieces using quotedPieces.induct with
  | case1 first next rest hempty ih =>
    rw [quotedPieces, if_pos hempty] at h
    exact List.mem_cons_of_mem _ (ih h)
  | case2 first next rest hempty ih =>
    rw [quotedPieces, if_neg hempty] at h
    obtain rfl | h := List.mem_cons.1 h
    · exact List.mem_cons_self
    · exact List.mem_cons_of_mem _ (List.mem_cons_of_mem _ (ih h))
  | case3 pieces hpieces =>
    rw [quotedPieces.eq_2 pieces hpieces] at h
    cases h

/-- A text between backticks is part of its line. -/
theorem mem_of_mem_quotedTexts {line text : List Char} {c : Char} (h : text ∈ quotedTexts line)
    (hc : c ∈ text) : c ∈ line := by
  obtain ⟨before, after, rfl, -⟩ :=
    Text.mem_piecesBetween_iff.1 (List.mem_of_mem_tail (mem_of_mem_quotedPieces h))
  simp [hc]

namespace Declarations

variable {text marker : String} {operation : Operation} {name : String}

/-- The operations that lines declare are shown on one line. -/
theorem isShown_of_mem_declared {lines : List (List Char)} (hlines : ∀ line ∈ lines, '\n' ∉ line)
    (h : operation ∈ declared lines) : operation.IsShown := by
  obtain ⟨quoted, hquoted, hoperation⟩ := List.mem_filterMap.1 h
  obtain ⟨line, hline, hquoted⟩ := List.mem_flatMap.1 hquoted
  exact Operation.isShown_of_ofDeclaration? hoperation fun hbreak =>
    hlines line hline (mem_of_mem_quotedTexts hquoted hbreak)

/-- There is no line break in a line of a section. -/
theorem lineBreak_notMem_section :
    ∀ line ∈ (Note.sectionLines? text.toList marker.toList).getD [], '\n' ∉ line :=
  fun _ hline => Text.lineBreak_notMem_of_mem_lines (Note.mem_lines_of_mem_sectionLines? hline)

/-- Every operation that a note declares can be shown on one line. -/
theorem isShown_of_mem_operations (h : operation ∈ (readDeclarations text marker).operations) :
    operation.IsShown := by
  obtain ⟨-, hmem, -, -⟩ := foldl_add
    (declared ((Note.sectionLines? text.toList marker.toList).getD []))
  obtain ⟨before, after, hsplit, -⟩ := (hmem operation).1 h
  have hdeclared : operation ∈ before ++ operation :: after :=
    List.mem_append_right _ List.mem_cons_self
  rw [← hsplit] at hdeclared
  exact isShown_of_mem_declared lineBreak_notMem_section hdeclared

/-- No two operations that a note declares have the same name. -/
theorem nodup_operations :
    ((readDeclarations text marker).operations.map Operation.name).Nodup :=
  (foldl_add _).1.nodup

/-- The names of declarations are sorted. -/
theorem increasing_names : Sorted.Increasing id (readDeclarations text marker).names :=
  (foldl_add _).2.2.1

/-- The names of declarations are identifiers. -/
theorem isIdentifier_of_mem_names (h : name ∈ (readDeclarations text marker).names) :
    Text.isIdentifier name.toList = true := by
  obtain ⟨operation, -, hname⟩ := ((foldl_add _).2.2.2 name).1 h
  exact Operation.isIdentifier_of_mem_typeNames hname

end Declarations

end Signature

end NoteCheck
