/-
# The layers of a text

Which texts have which outermost layer, said without the order in which the layers are tried. The
main statement, `Shape.ofTrimmed_eq_iff`: the layers of `Layer` are those that are found, so each
text without blanks around it has one of them, and only one.
-/
import NoteCheck.Signature.Denotation
import NoteCheck.Proofs.Signature.Brackets
import NoteCheck.Proofs.Text.Trim

namespace NoteCheck.Signature

/-! ## Words -/

/-- The words before the operand of a container, a dict or a tuple. -/
def words : List String := Container.all.map Container.keyword ++ ["Dict", "Tuple"]

/-- The word of a container is one of the words. -/
theorem Container.keyword_mem_words (container : Container) : container.keyword ∈ words := by
  cases container <;> decide

/-- Containers have different words. -/
theorem Container.keyword_injective : Function.Injective Container.keyword := by
  intro a b h
  cases a <;> cases b <;> first | rfl | exact absurd h (by decide)

/-- A dict is no container. -/
theorem Container.keyword_ne_dict (container : Container) : container.keyword ≠ "Dict" := by
  cases container <;> decide

/-- A tuple is no container. -/
theorem Container.keyword_ne_tuple (container : Container) : container.keyword ≠ "Tuple" := by
  cases container <;> decide

/-- The words are made of characters of identifiers. -/
theorem isIdentifierChar_of_mem_words {word : String} (h : word ∈ words) :
    ∀ c ∈ word.toList, Text.isIdentifierChar c := by
  have hwords : ∀ word ∈ words, word.toList.all Text.isIdentifierChar := by decide
  exact List.all_eq_true.1 (hwords word h)

/-- No word is empty. -/
theorem ne_nil_of_mem_words {word : String} (h : word ∈ words) : word.toList ≠ [] := by
  revert word
  decide

/-- A text begins with at most one word that a character of another kind follows. -/
theorem eq_of_append_cons_eq {p : Char → Bool} {a b s t : List Char} {c d : Char}
    (ha : ∀ x ∈ a, p x) (hb : ∀ x ∈ b, p x) (hc : p c = false) (hd : p d = false)
    (h : a ++ c :: s = b ++ d :: t) : a = b ∧ c = d ∧ s = t := by
  have htake : ∀ {x y : List Char} {e : Char}, (∀ z ∈ x, p z) → p e = false →
      (x ++ e :: y).takeWhile p = x := by
    intro x y e hx he
    rw [List.takeWhile_append_of_pos hx, List.takeWhile_cons_of_neg (by simp [he]),
      List.append_nil]
  have hab : a = b := by rw [← htake ha hc, h, htake hb hd]
  subst hab
  rw [List.append_cancel_left_eq, List.cons.injEq] at h
  exact ⟨rfl, h⟩

namespace Operand

/-- The operand of a word in brackets. -/
theorem after?_eq_bracketed_iff {word : String} {text inner : List Char} :
    after? word text = some (bracketed inner) ↔ ∃ c, isClosing c = true ∧
      TopLevel.Balanced inner ∧ text = word.toList ++ '[' :: (inner ++ [c]) := by
  rw [after?]
  cases hword : word.toList.isPrefixOf? text with
  | none =>
    refine iff_of_false nofun ?_
    rintro ⟨c, -, -, rfl⟩
    rw [List.isPrefixOf?_eq_some_iff_append_eq.2 rfl] at hword
    cases hword
  | some rest =>
    obtain rfl := List.isPrefixOf?_eq_some_iff_append_eq.1 hword
    simp only [List.append_cancel_left_eq]
    cases rest with
    | nil => exact iff_of_false nofun nofun
    | cons d rest =>
      dsimp only
      split_ifs with hbracket hblank hempty
      · subst hbracket
        simp only [Option.map_eq_some_iff, TopLevel.inside?_eq_some_iff, bracketed.injEq,
          exists_eq_right, List.cons.injEq, true_and]
        exact exists_congr fun c => by tauto
      all_goals
        refine iff_of_false nofun ?_
        rintro ⟨c, -, -, heq⟩
        exact hbracket (List.cons.inj heq).1

/-- The operand of a word after a blank. -/
theorem after?_eq_informal_iff {word : String} {text operand : List Char} :
    after? word text = some (informal operand) ↔ ∃ b rest, Text.isBlank b = true ∧
      text = word.toList ++ b :: rest ∧ Text.trim rest = operand ∧ operand ≠ [] := by
  rw [after?]
  cases hword : word.toList.isPrefixOf? text with
  | none =>
    refine iff_of_false nofun ?_
    rintro ⟨b, rest, -, rfl, -⟩
    rw [List.isPrefixOf?_eq_some_iff_append_eq.2 rfl] at hword
    cases hword
  | some rest =>
    obtain rfl := List.isPrefixOf?_eq_some_iff_append_eq.1 hword
    simp only [List.append_cancel_left_eq]
    cases rest with
    | nil => exact iff_of_false nofun nofun
    | cons d rest =>
      dsimp only
      -- behind the word: a bracket, a blank with nothing or something after it, another character
      split_ifs with hbracket hblank hempty
      · subst hbracket
        refine iff_of_false ?_ ?_
        · intro h
          obtain ⟨_, -, h⟩ := Option.map_eq_some_iff.1 h
          cases h
        · rintro ⟨b, _, hb, heq, -⟩
          obtain ⟨rfl, -⟩ := List.cons.inj heq
          exact absurd hb (by decide)
      · refine iff_of_false nofun ?_
        rintro ⟨b, _, -, heq, rfl, hne⟩
        obtain ⟨rfl, rfl⟩ := List.cons.inj heq
        exact hne (List.isEmpty_iff.1 hempty)
      · constructor
        · intro h
          obtain rfl := informal.inj (Option.some.inj h)
          exact ⟨d, rest, hblank, rfl, rfl, fun hnil => hempty (List.isEmpty_iff.2 hnil)⟩
        · rintro ⟨b, _, -, heq, rfl, -⟩
          obtain ⟨rfl, rfl⟩ := List.cons.inj heq
          rfl
      · refine iff_of_false nofun ?_
        rintro ⟨b, _, hb, heq, -⟩
        obtain ⟨rfl, -⟩ := List.cons.inj heq
        exact hblank hb

/-- An operand stands after a bracket or a blank. -/
theorem exists_eq_of_after? {word : String} {text : List Char} {operand : Operand}
    (h : after? word text = some operand) :
    ∃ c rest, Text.isIdentifierChar c = false ∧ text = word.toList ++ c :: rest := by
  cases operand with
  | bracketed inner =>
    obtain ⟨c, -, -, rfl⟩ := after?_eq_bracketed_iff.1 h
    exact ⟨'[', inner ++ [c], by decide, rfl⟩
  | informal operand =>
    obtain ⟨b, rest, hb, rfl, -⟩ := after?_eq_informal_iff.1 h
    exact ⟨b, rest, Text.isIdentifierChar_eq_false_of_isBlank hb, rfl⟩

/-- A text has an operand after at most one word. -/
theorem word_eq_of_after? {word word' : String} {text : List Char} {operand operand' : Operand}
    (hword : word ∈ words) (hword' : word' ∈ words) (h : after? word text = some operand)
    (h' : after? word' text = some operand') : word = word' := by
  obtain ⟨c, rest, hc, rfl⟩ := exists_eq_of_after? h
  obtain ⟨c', rest', hc', heq⟩ := exists_eq_of_after? h'
  exact String.toList_injective (eq_of_append_cons_eq (isIdentifierChar_of_mem_words hword)
    (isIdentifierChar_of_mem_words hword') hc hc' heq).1

/-- A text with an operand begins with a word, and so with no parenthesis. -/
theorem head?_ne_of_after? {word : String} {text : List Char} {operand : Operand}
    (hword : word ∈ words) (h : after? word text = some operand) : text.head? ≠ some '(' := by
  obtain ⟨c, rest, -, rfl⟩ := exists_eq_of_after? h
  obtain ⟨d, tail, htail⟩ := List.exists_cons_of_ne_nil (ne_nil_of_mem_words hword)
  have hd := isIdentifierChar_of_mem_words hword d (htail ▸ List.mem_cons_self)
  rw [htail, List.cons_append, List.head?_cons]
  intro heq
  obtain rfl := Option.some.inj heq
  exact absurd hd (by decide)

/-- A text that begins with a word is not in parentheses. -/
theorem group?_eq_none_of_after? {word : String} {text : List Char} {operand : Operand}
    (hword : word ∈ words) (h : after? word text = some operand) : Shape.group? text = none := by
  rw [Shape.group?.eq_def]
  split
  · exact absurd rfl (head?_ne_of_after? hword h)
  · rfl

/-- The key of a dict ends at the first separator, and the value is all that follows. -/
theorem keyValue_eq {operand : Operand} {key rest : List Char}
    (h : TopLevel.split operand.dictSeparator operand.text =
      key :: TopLevel.split operand.dictSeparator rest) : operand.keyValue = (key, rest) := by
  have hne : operand.dictSeparator ≠ [] := by cases operand <;> exact List.cons_ne_nil _ _
  obtain ⟨value, values, hrest⟩ := List.exists_cons_of_ne_nil
    (TopLevel.splitFrom_ne_nil operand.dictSeparator 0 0 rest)
  rw [keyValue, h, TopLevel.split, hrest]
  dsimp only
  rw [← hrest, ← TopLevel.split, TopLevel.intercalate_split hne]

end Operand

/-! ## Layers -/

namespace Shape

/-- A group is a balanced text between a parenthesis and a closing bracket, which may be of the
other kind. -/
theorem group?_eq_some_iff {text inner : List Char} :
    group? text = some inner ↔
      ∃ c, isClosing c = true ∧ TopLevel.Balanced inner ∧ text = '(' :: (inner ++ [c]) := by
  rw [group?.eq_def]
  split
  · simp only [TopLevel.inside?_eq_some_iff, List.cons.injEq, true_and]
    exact exists_congr fun c => by tauto
  · rename_i hne
    refine iff_of_false nofun ?_
    rintro ⟨c, -, -, rfl⟩
    exact hne _ rfl

/-- The layer that a text without blanks around it has. -/
inductive Layer : List Char → Shape → Prop
  | blank : Layer [] .blank
  | group {text inner} : group? text = some inner → Layer text (.group inner)
  | generic {text container operand} :
      Operand.after? (Container.keyword container) text = some operand →
      Layer text (.generic container operand.text)
  | dict {text operand} : Operand.after? "Dict" text = some operand →
      Layer text (.dict operand.keyValue.1 operand.keyValue.2)
  | tuple {text operand} : Operand.after? "Tuple" text = some operand →
      Layer text (.tuple (TopLevel.split [','] operand.text))
  | commas {text first second rest} : group? text = none →
      (∀ word ∈ words, Operand.after? word text = none) →
      TopLevel.split [','] text = first :: second :: rest →
      Layer text (.tuple (first :: second :: rest))
  | name {text} : text ≠ [] → group? text = none →
      (∀ word ∈ words, Operand.after? word text = none) →
      TopLevel.split [','] text = [text] → Layer text (.name text)

/-- A text is a group exactly when it is in parentheses. -/
theorem layer_group_iff {text inner : List Char} :
    Layer text (.group inner) ↔ group? text = some inner := by
  constructor
  · intro h
    cases h with
    | group hgroup => exact hgroup
  · exact .group

/-- A text is a name when it is nothing else. -/
theorem layer_name_iff {text name : List Char} :
    Layer text (.name name) ↔ name = text ∧ text ≠ [] ∧ group? text = none ∧
      (∀ word ∈ words, Operand.after? word text = none) ∧ TopLevel.split [','] text = [text] := by
  constructor
  · intro h
    cases h with
    | name hne hgroup hwords hsplit => exact ⟨rfl, hne, hgroup, hwords, hsplit⟩
  · rintro ⟨rfl, hne, hgroup, hwords, hsplit⟩
    exact .name hne hgroup hwords hsplit

/-- A text has the form of a container when an operand follows the word of one. -/
theorem generic?_eq_some_iff {text : List Char} {shape : Shape} :
    generic? text = some shape ↔ ∃ container operand,
      Operand.after? (Container.keyword container) text = some operand ∧
        shape = generic container operand.text := by
  rw [generic?]
  constructor
  · intro h
    obtain ⟨container, -, h⟩ := List.exists_of_findSome?_eq_some h
    obtain ⟨operand, hoperand, rfl⟩ := Option.map_eq_some_iff.1 h
    exact ⟨container, operand, hoperand, rfl⟩
  · rintro ⟨container, operand, hoperand, rfl⟩
    have hsome : (Container.all.findSome? fun container =>
        (Operand.after? container.keyword text).map fun operand =>
          generic container operand.text).isSome := by
      rw [List.isSome_findSome?, List.any_eq_true]
      exact ⟨container, by cases container <;> decide, by rw [hoperand]; rfl⟩
    obtain ⟨shape, hshape⟩ := Option.isSome_iff_exists.1 hsome
    obtain ⟨container', -, h⟩ := List.exists_of_findSome?_eq_some hshape
    obtain ⟨operand', hoperand', rfl⟩ := Option.map_eq_some_iff.1 h
    obtain rfl := Container.keyword_injective (Operand.word_eq_of_after?
      container.keyword_mem_words container'.keyword_mem_words hoperand hoperand')
    rw [hshape, Option.some.inj (hoperand.symm.trans hoperand')]

/-- A text with an operand after one word has none after another. -/
theorem generic?_eq_none_of_after? {word : String} {text : List Char} {operand : Operand}
    (hword : word ∈ words) (hne : ∀ container : Container, container.keyword ≠ word)
    (h : Operand.after? word text = some operand) : generic? text = none := by
  rw [Option.eq_none_iff_forall_ne_some]
  intro shape hshape
  obtain ⟨container, operand', hoperand', -⟩ := generic?_eq_some_iff.1 hshape
  exact hne container
    (Operand.word_eq_of_after? container.keyword_mem_words hword hoperand' h)

/-- No operand follows a word when none follows that of a container, a dict or a tuple. -/
theorem forall_after?_eq_none_iff {text : List Char} :
    (∀ word ∈ words, Operand.after? word text = none) ↔
      generic? text = none ∧ Operand.after? "Dict" text = none ∧
        Operand.after? "Tuple" text = none := by
  have hgeneric : generic? text = none ↔
      ∀ container : Container, Operand.after? container.keyword text = none := by
    simp only [Option.eq_none_iff_forall_ne_some, ne_eq, generic?_eq_some_iff]
    exact ⟨fun h container operand hoperand => h _ ⟨container, operand, hoperand, rfl⟩,
      fun h shape ⟨container, operand, hoperand, _⟩ => h container operand hoperand⟩
  have hall : ∀ container : Container, container ∈ Container.all := by
    intro container
    cases container <;> decide
  simp only [words, List.forall_mem_append, List.forall_mem_map, List.forall_mem_cons,
    List.not_mem_nil, false_imp_iff, implies_true, and_true, hgeneric]
  exact and_congr_left' ⟨fun h container => h container (hall container), fun h container _ =>
    h container⟩

/-- The layer that is found is one that the text has. -/
theorem layer_ofTrimmed (text : List Char) : Layer text (ofTrimmed text) := by
  by_cases hempty : text = []
  · subst hempty
    exact .blank
  rw [ofTrimmed, if_neg (by simpa using hempty)]
  cases hgroup : group? text with
  | some inner => exact .group hgroup
  | none =>
  cases hgeneric : generic? text with
  | some shape =>
    obtain ⟨container, operand, hoperand, rfl⟩ := generic?_eq_some_iff.1 hgeneric
    exact .generic hoperand
  | none =>
  cases hdict : Operand.after? "Dict" text with
  | some operand =>
    rw [dict?, hdict]
    exact .dict hdict
  | none =>
  cases htuple : Operand.after? "Tuple" text with
  | some operand =>
    rw [dict?, hdict, tuple?, htuple]
    exact .tuple htuple
  | none =>
  have hwords := forall_after?_eq_none_iff.2 ⟨hgeneric, hdict, htuple⟩
  rw [dict?, hdict, tuple?, htuple]
  dsimp only
  split
  · rename_i first second rest hsplit
    exact .commas hgroup hwords hsplit
  · rename_i hsplit
    refine .name hempty hgroup hwords ?_
    -- a single part is the whole text
    have hjoin := TopLevel.intercalate_split (List.cons_ne_nil ',' []) text
    cases hparts : TopLevel.split [','] text with
    | nil => exact absurd hparts (TopLevel.splitFrom_ne_nil [','] 0 0 text)
    | cons part parts =>
      cases parts with
      | nil =>
        rw [hparts, List.intercalate_singleton] at hjoin
        rw [hjoin]
      | cons second rest => exact absurd hparts (hsplit part second rest)

/-- A text has the layer that is found, and no other. -/
theorem ofTrimmed_eq_iff {text : List Char} {shape : Shape} :
    ofTrimmed text = shape ↔ Layer text shape := by
  constructor
  · rintro rfl
    exact layer_ofTrimmed text
  · intro h
    -- each layer excludes those that are looked for before it
    cases h with
    | blank => rfl
    | group hgroup =>
      obtain ⟨c, -, -, rfl⟩ := group?_eq_some_iff.1 hgroup
      rw [ofTrimmed, hgroup]
      rfl
    | generic hoperand =>
      obtain ⟨c, rest, -, htext⟩ := Operand.exists_eq_of_after? hoperand
      rw [ofTrimmed, if_neg (by rw [htext]; simp), Operand.group?_eq_none_of_after?
        (Container.keyword_mem_words _) hoperand, generic?_eq_some_iff.2 ⟨_, _, hoperand, rfl⟩]
      rfl
    | dict hoperand =>
      obtain ⟨c, rest, -, htext⟩ := Operand.exists_eq_of_after? hoperand
      rw [ofTrimmed, if_neg (by rw [htext]; simp), Operand.group?_eq_none_of_after? (by decide)
        hoperand, generic?_eq_none_of_after? (by decide) Container.keyword_ne_dict hoperand, dict?,
        hoperand]
      rfl
    | tuple hoperand =>
      obtain ⟨c, rest, -, htext⟩ := Operand.exists_eq_of_after? hoperand
      have hdict : Operand.after? "Dict" text = none := by
        rw [Option.eq_none_iff_forall_ne_some]
        intro operand' hoperand'
        exact absurd (Operand.word_eq_of_after? (by decide) (by decide) hoperand hoperand')
          (by decide)
      rw [ofTrimmed, if_neg (by rw [htext]; simp), Operand.group?_eq_none_of_after? (by decide)
        hoperand, generic?_eq_none_of_after? (by decide) Container.keyword_ne_tuple hoperand, dict?,
        hdict, tuple?, hoperand]
      rfl
    | commas hgroup hwords hsplit =>
      obtain ⟨hgeneric, hdict, htuple⟩ := forall_after?_eq_none_iff.1 hwords
      have hne : text ≠ [] := by
        rintro rfl
        cases hsplit
      rw [ofTrimmed, if_neg (by simpa using hne), hgroup, hgeneric, dict?, hdict, tuple?, htuple]
      dsimp only
      rw [hsplit]
      rfl
    | name hne hgroup hwords hsplit =>
      obtain ⟨hgeneric, hdict, htuple⟩ := forall_after?_eq_none_iff.1 hwords
      rw [ofTrimmed, if_neg (by simpa using hne), hgroup, hgeneric, dict?, hdict, tuple?, htuple]
      dsimp only
      rw [hsplit]
      rfl

/-- The layer of a text is that of the text without the blanks around it. -/
theorem ofText_eq_iff {raw : List Char} {shape : Shape} :
    ofText raw = shape ↔ Layer (Text.trim raw) shape :=
  ofTrimmed_eq_iff

/-- A text denotes what its layer does. -/
theorem ofText_of_layer {text : List Char} {shape : Shape} (htext : Text.Trimmed text)
    (h : Layer text shape) : ofText text = shape :=
  ofText_eq_iff.2 (by rwa [htext.trim_eq])

end Shape

end NoteCheck.Signature
