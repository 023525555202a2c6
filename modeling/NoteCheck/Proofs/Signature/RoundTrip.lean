/-
# Types are read back

A type has two notations: the canonical one, in brackets, and an informal one, in which operands
stand in parentheses after their words. Each denotes the type that was written, as long as every
name in it denotes itself and has balanced brackets. The main statement,
`TypeExpr.ofText_render_and_ofText_informal`, is this for names that are identifiers.
-/
import NoteCheck.Proofs.Signature.Layers

namespace NoteCheck.Signature

/-- A pair of parentheses around a text. -/
def parenthesised (cs : List Char) : List Char := '(' :: (cs ++ [')'])

namespace TypeExpr

/-! ## Notations -/

mutual

/-- The informal notation of a type, with every operand in parentheses. -/
def informal : TypeExpr → String
  | any => "Any"
  | primitive p => p.name
  | named name => name
  | generic container element => s!"{container.keyword} ({element.informal})"
  | dict key value => s!"Dict ({key.informal}) -> ({value.informal})"
  | tuple elements => "Tuple " ++ ", ".intercalate (informalAll elements)

/-- The informal notations of types side by side, each in parentheses. -/
def informalAll : List TypeExpr → List String
  | [] => []
  | type :: types => s!"({type.informal})" :: informalAll types

end

/-- Every tuple in the type has an element, and every name has a property. -/
inductive NamedBy (P : String → Prop) : TypeExpr → Prop
  | any : NamedBy P any
  | primitive {p} : NamedBy P (primitive p)
  | named {name} : P name → NamedBy P (named name)
  | generic {container element} : NamedBy P element → NamedBy P (generic container element)
  | dict {key value} : NamedBy P key → NamedBy P value → NamedBy P (dict key value)
  | tuple {elements} : elements ≠ [] → (∀ e ∈ elements, NamedBy P e) → NamedBy P (tuple elements)

/-- The names of a type have every property that follows from one that they have. -/
theorem NamedBy.imp {P Q : String → Prop} (himp : ∀ name, P name → Q name) {e : TypeExpr}
    (h : NamedBy P e) : NamedBy Q e := by
  induction h with
  | any => exact .any
  | primitive => exact .primitive
  | named hname => exact .named (himp _ hname)
  | generic _ ih => exact .generic ih
  | dict _ _ ihkey ihvalue => exact .dict ihkey ihvalue
  | tuple hne _ ih => exact .tuple hne ih

/-- Types side by side are written one by one. -/
theorem renderAll_eq (elements : List TypeExpr) : renderAll elements = elements.map render := by
  induction elements with
  | nil => rfl
  | cons e elements ih => rw [renderAll, ih, List.map_cons]

/-- Types side by side are written informally one by one, each in parentheses. -/
theorem informalAll_eq (elements : List TypeExpr) :
    informalAll elements = elements.map fun e => s!"({e.informal})" := by
  induction elements with
  | nil => rfl
  | cons e elements ih => rw [informalAll, ih, List.map_cons]

section

variable (container : Container) (element key value : TypeExpr) (elements : List TypeExpr)

/-- The canonical form of a container is its word and its element in brackets. -/
theorem toList_render_generic : (generic container element).render.toList =
    container.keyword.toList ++ '[' :: (element.render.toList ++ [']']) := by
  simp [render, toString]

/-- The canonical form of a dict is its word, and its key and its value in brackets. -/
theorem toList_render_dict : (dict key value).render.toList = "Dict".toList ++
    '[' :: (key.render.toList ++ ([','] ++ ' ' :: value.render.toList) ++ [']']) := by
  simp [render, toString]

/-- The canonical form of a tuple is its word and its elements in brackets. -/
theorem toList_render_tuple : (tuple elements).render.toList = "Tuple".toList ++
    '[' :: ([',', ' '].intercalate (elements.map (·.render.toList)) ++ [']']) := by
  simp [render, renderAll_eq, String.toList_intercalate, Function.comp_def]

/-- The informal notation of a container is its word and its element in parentheses. -/
theorem toList_informal_generic : (generic container element).informal.toList =
    container.keyword.toList ++ ' ' :: parenthesised element.informal.toList := by
  simp [informal, parenthesised, toString]

/-- The informal notation of a dict has an arrow between key and value. -/
theorem toList_informal_dict : (dict key value).informal.toList = "Dict".toList ++
    ' ' :: (parenthesised key.informal.toList ++
      ([' ', '-', '>', ' '] ++ parenthesised value.informal.toList)) := by
  simp [informal, parenthesised, toString]

/-- The informal notation of a tuple has its elements side by side, each in parentheses. -/
theorem toList_informal_tuple : (tuple elements).informal.toList = "Tuple".toList ++
    ' ' :: [',', ' '].intercalate (elements.map (parenthesised ·.informal.toList)) := by
  simp [informal, informalAll_eq, String.toList_intercalate, Function.comp_def, parenthesised,
    toString]

end

/-! ## What texts denote -/

/-- Texts that are the same without the blanks around them denote the same type. -/
theorem ofChars_congr {a b : List Char} (h : Text.trim a = Text.trim b) :
    ofChars a = ofChars b := by
  rw [ofChars_eq, ofChars_eq, Shape.ofText, Shape.ofText, h]

/-- A blank before a text makes no difference. -/
theorem ofChars_blank_cons (cs : List Char) : ofChars (' ' :: cs) = ofChars cs := by
  refine ofChars_congr ?_
  have := Text.trim_append (a := [' ']) (b := []) (List.forall_mem_singleton.2 rfl) nofun cs
  rwa [List.append_nil] at this

/-- A blank after a text makes no difference. -/
theorem ofChars_append_blank (cs : List Char) : ofChars (cs ++ [' ']) = ofChars cs :=
  ofChars_congr (Text.trim_append (a := []) nofun (List.forall_mem_singleton.2 rfl) cs)

/-- A trimmed text after a word and a blank is an operand. -/
theorem after?_blank {word : String} {cs : List Char} (h : Text.Trimmed cs) (hne : cs ≠ []) :
    Operand.after? word (word.toList ++ ' ' :: cs) = some (.informal cs) :=
  Operand.after?_eq_informal_iff.2 ⟨' ', cs, by decide, rfl, h.trim_eq, hne⟩

/-- A text that begins with a word has no blanks around it if it ends in none. -/
theorem trimmed_append_cons {word : String} (hword : word ∈ words) {c : Char} {cs : List Char}
    (hne : cs ≠ []) (hlast : ∀ d ∈ cs.getLast?, Text.isBlank d = false) :
    Text.Trimmed (word.toList ++ c :: cs) where
  head := by
    intro d hd
    obtain ⟨e, tail, htail⟩ := List.exists_cons_of_ne_nil (ne_nil_of_mem_words hword)
    rw [htail] at hd
    obtain rfl := Option.some.inj hd
    by_contra hblank
    rw [Bool.not_eq_false] at hblank
    have hchar := isIdentifierChar_of_mem_words hword e (htail ▸ List.mem_cons_self)
    rw [Text.isIdentifierChar_eq_false_of_isBlank hblank] at hchar
    cases hchar
  last := by
    intro d hd
    rw [List.getLast?_append_cons, List.getLast?_cons_of_ne_nil hne] at hd
    exact hlast d hd

/-- A word with brackets after it has no blanks around it. -/
theorem trimmed_bracketed {word : String} (hword : word ∈ words) (inner : List Char) :
    Text.Trimmed (word.toList ++ '[' :: (inner ++ [']'])) := by
  refine trimmed_append_cons hword (by simp) fun d hd => ?_
  rw [List.getLast?_concat] at hd
  obtain rfl := Option.some.inj hd
  decide

section

variable {text : List Char} {operand : Operand} (htext : Text.Trimmed text)
include htext

/-- A text with an operand after the word of a container denotes the container. -/
theorem ofChars_of_container {container : Container}
    (h : Operand.after? container.keyword text = some operand) :
    ofChars text = generic container (ofChars operand.text) := by
  rw [ofChars_eq, Shape.ofText_of_layer htext (.generic h)]

/-- A text with an operand after the word of a dict denotes a dict. -/
theorem ofChars_of_dict (h : Operand.after? "Dict" text = some operand) :
    ofChars text = dict (ofChars operand.keyValue.1) (ofChars operand.keyValue.2) := by
  rw [ofChars_eq, Shape.ofText_of_layer htext (.dict h)]

/-- A text with an operand after the word of a tuple denotes a tuple. -/
theorem ofChars_of_tuple (h : Operand.after? "Tuple" text = some operand) :
    ofChars text = tuple ((TopLevel.split [','] operand.text).map ofChars) := by
  rw [ofChars_eq, Shape.ofText_of_layer htext (.tuple h)]

end

/-- A text in parentheses has no blanks around it. -/
theorem trimmed_parenthesised (cs : List Char) : Text.Trimmed (parenthesised cs) where
  head := by
    intro c hc
    obtain rfl := Option.some.inj hc
    decide
  last := by
    intro c hc
    rw [parenthesised, ← List.cons_append, List.getLast?_concat] at hc
    obtain rfl := Option.some.inj hc
    decide

/-- A text in parentheses is not empty. -/
theorem parenthesised_ne_nil (cs : List Char) : parenthesised cs ≠ [] := List.cons_ne_nil _ _

/-- Parentheses around a balanced text make no difference. -/
theorem ofChars_parenthesised {cs : List Char} (h : TopLevel.Balanced cs) :
    ofChars (parenthesised cs) = ofChars cs := by
  have hgroup : Shape.group? (parenthesised cs) = some cs :=
    Shape.group?_eq_some_iff.2 ⟨')', by decide, h, rfl⟩
  rw [ofChars_eq (parenthesised cs), Shape.ofText_of_layer (trimmed_parenthesised cs)
    (.group hgroup)]

/-! ## Names -/

/-- A name is kept, without its blanks, when it has no meaning of its own as it is written. -/
theorem ofName_eq_named_iff {text : List Char} {name : String} :
    ofName text = named name ↔ String.ofList text ≠ "Any" ∧
      Primitive.ofSpelling? (String.ofList text) = none ∧
      name = String.ofList (text.filter (!Text.isBlank ·)) := by
  rw [ofName]
  split_ifs with hany
  · simp [hany]
  · cases hspelling : Primitive.ofSpelling? (String.ofList text) with
    | some p => simp
    | none => simp [hany, eq_comm]

/-- Blanks have no part in the balance of brackets. -/
theorem balanced_filter_iff {cs : List Char} :
    TopLevel.Balanced (cs.filter (!Text.isBlank ·)) ↔ TopLevel.Balanced cs := by
  have hfilter : ∀ depth, TopLevel.openAfter? depth (cs.filter (!Text.isBlank ·)) =
      TopLevel.openAfter? depth cs := by
    induction cs with
    | nil => exact fun _ => rfl
    | cons c cs ih =>
      intro depth
      by_cases hc : Text.isBlank c = true
      · rw [List.filter_cons_of_neg (by simp [hc]), ih, TopLevel.openAfter?,
          TopLevel.isOpening_eq_false hc (by decide) (by decide),
          TopLevel.isClosing_eq_false hc (by decide) (by decide)]
        rfl
      · rw [List.filter_cons_of_pos (by simp [hc]), TopLevel.openAfter?, TopLevel.openAfter?, ih,
          ih, ih]
  rw [TopLevel.Balanced, TopLevel.Balanced, hfilter]

/-- A text that denotes a name is the name with blanks in it, or has it, with balanced brackets,
in parentheses. -/
theorem exists_layer_of_ofChars_eq_named {cs : List Char} {name : String}
    (h : ofChars cs = named name) :
    ∃ text, Shape.Layer text (.name text) ∧ ofName text = named name ∧
      (text = Text.trim cs ∨
        (Text.trim cs).head? = some '(' ∧ text.length < cs.length ∧ TopLevel.Balanced text) := by
  -- by induction on the length, which each pair of parentheses makes shorter by two
  induction hn : cs.length using Nat.strong_induction_on generalizing cs with
  | _ n ih =>
    subst hn
    have hlayer := Shape.ofText_eq_iff.1 (rfl : Shape.ofText cs = _)
    rw [ofChars_eq] at h
    generalize Shape.ofText cs = shape at h hlayer
    generalize htrim : Text.trim cs = trimmed at hlayer ⊢
    cases hlayer with
    | blank => cases h
    | generic => cases h
    | dict => cases h
    | tuple => cases h
    | commas => cases h
    | name hne hgroup hwords hsplit =>
      exact ⟨trimmed, .name hne hgroup hwords hsplit, h, .inl rfl⟩
    | @group _ inner hgroup =>
      obtain ⟨c, -, hbalanced, rfl⟩ := Shape.group?_eq_some_iff.1 hgroup
      have hlt : inner.length < cs.length := by
        have := Text.length_trim_le cs
        rw [htrim] at this
        simp only [List.length_cons, List.length_append] at this
        omega
      obtain ⟨text, hname, hdenotes, hplace⟩ := ih inner.length hlt h rfl
      refine ⟨text, hname, hdenotes, .inr ⟨rfl, ?_, ?_⟩⟩
      · obtain rfl | ⟨-, hshorter, -⟩ := hplace
        · exact Nat.lt_of_le_of_lt (Text.length_trim_le inner) hlt
        · exact Nat.lt_trans hshorter hlt
      · obtain rfl | ⟨-, -, htext⟩ := hplace
        · rw [← balanced_filter_iff, Text.filter_trim, balanced_filter_iff]
          exact hbalanced
        · exact htext

/-- A name that denotes itself has no blanks, and no parentheses around it, no operand and no
commas. -/
theorem layer_of_ofText_eq_named {name : String} (h : ofText name = named name) :
    Shape.Layer name.toList (.name name.toList) ∧ ofName name.toList = named name := by
  obtain ⟨text, hlayer, hdenotes, hplace⟩ := exists_layer_of_ofChars_eq_named h
  obtain ⟨-, -, hname⟩ := ofName_eq_named_iff.1 hdenotes
  have htext : name.toList = text.filter (!Text.isBlank ·) := by rw [hname, String.toList_ofList]
  have hle : name.toList.length ≤ text.length := by
    rw [htext]
    exact List.length_filter_le _ text
  have hsame : text = name.toList := by
    obtain rfl | ⟨-, hlt, -⟩ := hplace
    · rw [Text.filter_trim, eq_comm, List.filter_eq_self] at htext
      exact (Text.trimmed_of_forall fun c hc => by simpa using htext c hc).trim_eq
    · omega
  rw [← hsame]
  exact ⟨hlayer, hdenotes⟩

/-- An identifier has no layers, and denotes what it denotes as a name. -/
theorem ofChars_of_isIdentifier {cs : List Char} (h : Text.isIdentifier cs = true) :
    ofChars cs = ofName cs := by
  rw [Text.isIdentifier, Bool.and_eq_true, Bool.and_eq_true, List.all_eq_true] at h
  obtain ⟨⟨hchars, hne⟩, -⟩ := h
  have hother : ∀ c ∈ cs, ∀ d, Text.isIdentifierChar d = false → c ≠ d := by
    rintro c hc _ hd rfl
    rw [hchars c hc] at hd
    cases hd
  have htrimmed : Text.Trimmed cs := by
    refine Text.trimmed_of_forall fun c hc => Bool.eq_false_iff.2 fun hblank => ?_
    exact hother c hc c (Text.isIdentifierChar_eq_false_of_isBlank hblank) rfl
  have hlayer : Shape.Layer cs (.name cs) := by
    refine .name (by simpa using hne) ?_ ?_ ?_
    · rw [Option.eq_none_iff_forall_ne_some]
      intro inner hgroup
      obtain ⟨c, -, -, rfl⟩ := Shape.group?_eq_some_iff.1 hgroup
      exact hother '(' List.mem_cons_self '(' (by decide) rfl
    · intro word _
      rw [Option.eq_none_iff_forall_ne_some]
      intro operand hoperand
      obtain ⟨c, rest, hc, rfl⟩ := Operand.exists_eq_of_after? hoperand
      exact hother c (by simp) c hc rfl
    · refine (TopLevel.uncut_of_forall (List.cons_ne_nil _ _) fun c hc hsep => ?_).split_eq
      exact hother c hc ',' (by decide) (Option.some.inj hsep).symm
  rw [ofChars_eq, Shape.ofText_of_layer htrimmed hlayer]

/-! ## Reading the notations -/

/-- A name that denotes itself and has balanced brackets. -/
structure IsReadable (name : String) : Prop where
  denotes : ofText name = named name
  balanced : TopLevel.Balanced name.toList

/-- There are no brackets in the words. -/
theorem balanced_word {word : String} (h : word ∈ words) : TopLevel.Balanced word.toList := by
  revert word
  decide

/-- Brackets are balanced around a balanced text. -/
theorem balanced_bracketed {word : String} (hword : word ∈ words) {inner : List Char}
    (h : TopLevel.Balanced inner) : TopLevel.Balanced (word.toList ++ '[' :: (inner ++ [']'])) :=
  (balanced_word hword).append (h.enclosed (by decide) (by decide))

/-- Parentheses are balanced around a balanced text. -/
theorem balanced_parenthesised {cs : List Char} (h : TopLevel.Balanced cs) :
    TopLevel.Balanced (parenthesised cs) :=
  h.enclosed (by decide) (by decide)

/-- Balanced texts are balanced side by side. -/
theorem balanced_intercalate {parts : List (List Char)} (h : ∀ p ∈ parts, TopLevel.Balanced p) :
    TopLevel.Balanced ([',', ' '].intercalate parts) := by
  induction parts with
  | nil => exact TopLevel.balanced_nil
  | cons p parts ih =>
    obtain ⟨hp, hparts⟩ := List.forall_mem_cons.1 h
    cases parts with
    | nil => simpa using hp
    | cons q parts =>
      rw [List.intercalate_cons_cons]
      exact (hp.append (by decide)).append (ih hparts)

/-- The canonical form is balanced when the names are. -/
theorem balanced_render {e : TypeExpr} (h : e.NamedBy (TopLevel.Balanced ·.toList)) :
    TopLevel.Balanced e.render.toList := by
  induction h with
  | any => decide
  | @primitive p => cases p <;> decide
  | named hname => exact hname
  | @generic container element _ ih =>
    rw [toList_render_generic]
    exact balanced_bracketed container.keyword_mem_words ih
  | dict _ _ ihkey ihvalue =>
    rw [toList_render_dict]
    refine balanced_bracketed (by decide) (ihkey.append ?_)
    exact TopLevel.Balanced.append (a := [',', ' ']) (by decide) ihvalue
  | tuple _ _ ih =>
    rw [toList_render_tuple]
    exact balanced_bracketed (by decide) (balanced_intercalate (List.forall_mem_map.2 ih))

/-- The informal notation is balanced when the names are. -/
theorem balanced_informal {e : TypeExpr} (h : e.NamedBy (TopLevel.Balanced ·.toList)) :
    TopLevel.Balanced e.informal.toList := by
  have hblank : TopLevel.Balanced [' '] := by decide
  induction h with
  | any => decide
  | @primitive p => cases p <;> decide
  | named hname => exact hname
  | @generic container element _ ih =>
    rw [toList_informal_generic]
    exact (balanced_word container.keyword_mem_words).append
      (hblank.append (balanced_parenthesised ih))
  | dict _ _ ihkey ihvalue =>
    rw [toList_informal_dict]
    refine (balanced_word (by decide)).append (hblank.append ?_)
    refine (balanced_parenthesised ihkey).append ?_
    exact TopLevel.Balanced.append (by decide) (balanced_parenthesised ihvalue)
  | tuple _ _ ih =>
    rw [toList_informal_tuple]
    refine (balanced_word (by decide)).append (hblank.append ?_)
    exact balanced_intercalate (List.forall_mem_map.2 fun e he => balanced_parenthesised (ih e he))

/-- No comma cuts a text in brackets. -/
theorem uncut_bracketed {word : String} (hword : word ∈ words) {inner : List Char}
    (h : TopLevel.Balanced inner) :
    TopLevel.Uncut [','] 0 (word.toList ++ '[' :: (inner ++ [']'])) := by
  refine TopLevel.Uncut.append (TopLevel.uncut_of_notMem fun hmem => ?_) ?_
  · exact absurd (isIdentifierChar_of_mem_words hword _ hmem) (by decide)
  · rw [(balanced_word hword).height_eq_zero]
    exact h.uncut_enclosed (by decide) (by decide) (List.cons_ne_nil _ _)

/-- No separator cuts a text in parentheses. -/
theorem uncut_parenthesised {separator cs : List Char} (hsep : separator.head? ≠ some '(')
    (hne : separator ≠ []) (h : TopLevel.Balanced cs) :
    TopLevel.Uncut separator 0 (parenthesised cs) :=
  h.uncut_enclosed (by decide) hsep hne

/-- The canonical form of a type is one part of a list of types. -/
theorem uncut_render {e : TypeExpr} (h : e.NamedBy IsReadable) :
    TopLevel.Uncut [','] 0 e.render.toList := by
  have hbalanced : ∀ {e : TypeExpr}, e.NamedBy IsReadable → TopLevel.Balanced e.render.toList :=
    fun h => balanced_render (h.imp fun _ hname => hname.balanced)
  cases h with
  | any => exact TopLevel.uncut_of_notMem (by decide)
  | @primitive p =>
    refine TopLevel.uncut_of_notMem ?_
    cases p <;> decide
  | named hname =>
    obtain ⟨hlayer, -⟩ := layer_of_ofText_eq_named hname.denotes
    obtain ⟨-, -, -, -, hsplit⟩ := Shape.layer_name_iff.1 hlayer
    exact TopLevel.uncut_of_split_eq hsplit
  | @generic container element h =>
    rw [toList_render_generic]
    exact uncut_bracketed container.keyword_mem_words (hbalanced h)
  | dict hkey hvalue =>
    rw [toList_render_dict]
    refine uncut_bracketed (by decide) ((hbalanced hkey).append ?_)
    exact TopLevel.Balanced.append (a := [',', ' ']) (by decide) (hbalanced hvalue)
  | tuple _ h =>
    rw [toList_render_tuple]
    refine uncut_bracketed (by decide) (balanced_intercalate ?_)
    exact List.forall_mem_map.2 fun e he => hbalanced (h e he)

/-- A blank after a comma belongs to the part that follows. -/
theorem intercalate_comma_blank (first : List Char) (others : List (List Char)) :
    [',', ' '].intercalate (first :: others) =
      [','].intercalate (first :: others.map (' ' :: ·)) := by
  induction others generalizing first with
  | nil => rfl
  | cons second others ih =>
    have hhead := TopLevel.intercalate_consFirst [','] ' '
      (List.cons_ne_nil second (others.map (' ' :: ·)))
    rw [Text.consFirst] at hhead
    rw [List.intercalate_cons_cons, ih second, List.map_cons, List.intercalate_cons_cons, hhead]
    simp

/-- The types of a list in which blanks follow the commas are the types of its parts. -/
theorem map_ofChars_split {parts : List (List Char)} (hne : parts ≠ [])
    (h : ∀ p ∈ parts, TopLevel.Uncut [','] 0 p ∧ TopLevel.Balanced p) :
    (TopLevel.split [','] ([',', ' '].intercalate parts)).map ofChars = parts.map ofChars := by
  obtain ⟨first, others, rfl⟩ := List.exists_cons_of_ne_nil hne
  rw [intercalate_comma_blank,
    TopLevel.split_intercalate (List.cons_ne_nil _ _) (List.cons_ne_nil _ _)]
  · rw [List.map_cons, List.map_map, List.map_cons]
    congr 2
    funext p
    exact ofChars_blank_cons p
  · obtain ⟨⟨hcut, hfirst⟩, hothers⟩ := List.forall_mem_cons.1 h
    refine List.forall_mem_cons.2 ⟨⟨hcut, hfirst.height_eq_zero⟩, List.forall_mem_map.2 ?_⟩
    intro p hp
    obtain ⟨hcut, hp⟩ := hothers p hp
    have hblank : TopLevel.Balanced [' '] := by decide
    refine ⟨?_, (hblank.append hp).height_eq_zero⟩
    refine TopLevel.Uncut.append (a := [' '])
      (TopLevel.uncut_singleton (by decide) (List.cons_ne_nil _ _)) ?_
    exact hcut

/-- The canonical form of a type denotes it. -/
theorem ofText_render {e : TypeExpr} (h : e.NamedBy IsReadable) : ofText e.render = e := by
  -- commas cut nothing inside the brackets of a part, as these are balanced
  have hbalanced : ∀ {e : TypeExpr}, e.NamedBy IsReadable → TopLevel.Balanced e.render.toList :=
    fun h => balanced_render (h.imp fun _ hname => hname.balanced)
  rw [ofText]
  induction h with
  | any =>
    rw [ofChars_of_isIdentifier (by decide)]
    rfl
  | @primitive p =>
    rw [ofChars_of_isIdentifier (by cases p <;> decide)]
    cases p <;> rfl
  | named hname => exact hname.denotes
  | @generic container element h ih =>
    rw [toList_render_generic,
      ofChars_of_container (trimmed_bracketed container.keyword_mem_words _)
      (Operand.after?_eq_bracketed_iff.2 ⟨']', by decide, hbalanced h, rfl⟩), Operand.text, ih]
  | @dict key value hkey hvalue ihkey ihvalue =>
    have hinner : TopLevel.Balanced (key.render.toList ++ ([','] ++ ' ' :: value.render.toList)) :=
      (hbalanced hkey).append
        (TopLevel.Balanced.append (a := [',', ' ']) (by decide) (hbalanced hvalue))
    have hkeyValue : (Operand.bracketed _).keyValue = (key.render.toList, _) :=
      Operand.keyValue_eq (TopLevel.split_append (uncut_render hkey)
        (hbalanced hkey).height_eq_zero (List.cons_ne_nil ',' []) (' ' :: value.render.toList))
    rw [toList_render_dict, ofChars_of_dict (trimmed_bracketed (by decide) _)
      (Operand.after?_eq_bracketed_iff.2 ⟨']', by decide, hinner, rfl⟩), hkeyValue, ihkey,
      ofChars_blank_cons, ihvalue]
  | @tuple elements hne h ih =>
    have hinner := balanced_intercalate (List.forall_mem_map.2 fun e he => hbalanced (h e he))
    rw [toList_render_tuple, ofChars_of_tuple (trimmed_bracketed (by decide) _)
      (Operand.after?_eq_bracketed_iff.2 ⟨']', by decide, hinner, rfl⟩), Operand.text,
      map_ofChars_split (by simpa using hne) (List.forall_mem_map.2 fun e he =>
        ⟨uncut_render (h e he), hbalanced (h e he)⟩), List.map_map]
    exact congrArg tuple (List.map_congr_left ih |>.trans (List.map_id _))

/-- Texts without blanks around them have none around them side by side. -/
theorem trimmed_intercalate {parts : List (List Char)} (hne : parts ≠ [])
    (h : ∀ p ∈ parts, Text.Trimmed p ∧ p ≠ []) :
    Text.Trimmed ([',', ' '].intercalate parts) ∧ [',', ' '].intercalate parts ≠ [] := by
  induction parts with
  | nil => exact absurd rfl hne
  | cons p parts ih =>
    obtain ⟨⟨hp, hpne⟩, hparts⟩ := List.forall_mem_cons.1 h
    cases parts with
    | nil =>
      rw [List.intercalate_singleton]
      exact ⟨hp, hpne⟩
    | cons q parts =>
      obtain ⟨htrimmed, hrest⟩ := ih (List.cons_ne_nil q parts) hparts
      rw [List.intercalate_cons_cons, List.append_assoc]
      exact ⟨hp.append htrimmed hpne hrest _, by simp [hpne]⟩

/-- The arrow of an informal dict stands after the blank that belongs to the key. -/
theorem keyValue_informal {key value : List Char} (hkey : TopLevel.Balanced key) :
    (Operand.informal (parenthesised key ++
      ([' ', '-', '>', ' '] ++ parenthesised value))).keyValue =
        (parenthesised key ++ [' '], ' ' :: parenthesised value) := by
  have hcut : TopLevel.Uncut ['-', '>'] 0 (parenthesised key ++ [' ']) :=
    (uncut_parenthesised (by decide) (List.cons_ne_nil _ _) hkey).append
      (TopLevel.uncut_singleton (fun _ => by decide) (List.cons_ne_nil _ _))
  have hheight : TopLevel.height (parenthesised key ++ [' ']) = 0 :=
    ((balanced_parenthesised hkey).append (by decide)).height_eq_zero
  have hsplit := TopLevel.split_append hcut hheight (List.cons_ne_nil _ _)
    (' ' :: parenthesised value)
  exact Operand.keyValue_eq (by simpa [Operand.dictSeparator, Operand.text] using hsplit)

/-- The informal form of a type denotes it. -/
theorem ofText_informal {e : TypeExpr} (h : e.NamedBy IsReadable) : ofText e.informal = e := by
  -- parentheses around each part keep it from being cut
  have hbalanced : ∀ {e : TypeExpr}, e.NamedBy IsReadable → TopLevel.Balanced e.informal.toList :=
    fun h => balanced_informal (h.imp fun _ hname => hname.balanced)
  rw [ofText]
  induction h with
  | any =>
    rw [ofChars_of_isIdentifier (by decide)]
    rfl
  | @primitive p =>
    rw [ofChars_of_isIdentifier (by cases p <;> decide)]
    cases p <;> rfl
  | named hname => exact hname.denotes
  | @generic container element h ih =>
    have htrimmed := trimmed_parenthesised element.informal.toList
    have hne := parenthesised_ne_nil element.informal.toList
    rw [toList_informal_generic, ofChars_of_container
      (trimmed_append_cons container.keyword_mem_words hne htrimmed.last)
      (after?_blank htrimmed hne), Operand.text, ofChars_parenthesised (hbalanced h), ih]
  | @dict key value hkey hvalue ihkey ihvalue =>
    have htrimmed : Text.Trimmed (parenthesised key.informal.toList ++
        ([' ', '-', '>', ' '] ++ parenthesised value.informal.toList)) :=
      (trimmed_parenthesised _).append (trimmed_parenthesised _) (parenthesised_ne_nil _)
        (parenthesised_ne_nil _) _
    have hne : parenthesised key.informal.toList ++
        ([' ', '-', '>', ' '] ++ parenthesised value.informal.toList) ≠ [] := by simp
    rw [toList_informal_dict, ofChars_of_dict
      (trimmed_append_cons (by decide) hne htrimmed.last) (after?_blank htrimmed hne),
      keyValue_informal (hbalanced hkey), ofChars_append_blank,
      ofChars_parenthesised (hbalanced hkey), ihkey, ofChars_blank_cons,
      ofChars_parenthesised (hbalanced hvalue), ihvalue]
  | @tuple elements hne h ih =>
    have hparts : ∀ p ∈ elements.map (parenthesised ·.informal.toList),
        Text.Trimmed p ∧ p ≠ [] :=
      List.forall_mem_map.2 fun e _ => ⟨trimmed_parenthesised _, parenthesised_ne_nil _⟩
    obtain ⟨htrimmed, hne'⟩ := trimmed_intercalate (by simpa using hne) hparts
    rw [toList_informal_tuple, ofChars_of_tuple
      (trimmed_append_cons (by decide) hne' htrimmed.last) (after?_blank htrimmed hne'),
      Operand.text, map_ofChars_split (by simpa using hne) (List.forall_mem_map.2 fun e he =>
        ⟨uncut_parenthesised (by decide) (List.cons_ne_nil _ _) (hbalanced (h e he)),
          balanced_parenthesised (hbalanced (h e he))⟩), List.map_map]
    refine congrArg tuple ((List.map_congr_left fun e he => ?_).trans (List.map_id _))
    rw [Function.comp, ofChars_parenthesised (hbalanced (h e he)), ih e he]
    rfl

/-- A name that is an identifier, and neither stands for any type nor for a primitive one. -/
structure IsPlainName (name : String) : Prop where
  isIdentifier : Text.isIdentifier name.toList = true
  ne_any : name ≠ "Any"
  not_spelling : Primitive.ofSpelling? name = none

/-- The characters of a plain name are those of identifiers. -/
theorem IsPlainName.isIdentifierChar {name : String} (h : IsPlainName name) {c : Char}
    (hc : c ∈ name.toList) : Text.isIdentifierChar c = true := by
  have hname := h.isIdentifier
  rw [Text.isIdentifier, Bool.and_eq_true, Bool.and_eq_true, List.all_eq_true] at hname
  exact hname.1.1 c hc

/-- A plain name denotes itself and has no brackets. -/
theorem IsPlainName.isReadable {name : String} (h : IsPlainName name) : IsReadable name where
  denotes := by
    have hblanks : name.toList.filter (!Text.isBlank ·) = name.toList := by
      rw [List.filter_eq_self]
      intro c hc
      by_contra hblank
      rw [Bool.not_eq_true, Bool.not_eq_false'] at hblank
      exact absurd (h.isIdentifierChar hc)
        (Bool.eq_false_iff.1 (Text.isIdentifierChar_eq_false_of_isBlank hblank))
    rw [ofText, ofChars_of_isIdentifier h.isIdentifier, ofName_eq_named_iff, hblanks,
      String.ofList_toList]
    exact ⟨h.ne_any, h.not_spelling, rfl⟩
  balanced := by
    refine TopLevel.balanced_of_forall fun c hc => ?_
    have hchar := h.isIdentifierChar hc
    exact ⟨TopLevel.isOpening_eq_false hchar (by decide) (by decide),
      TopLevel.isClosing_eq_false hchar (by decide) (by decide)⟩

/-- A type is read back from both of its notations, so that they denote the same type. -/
theorem ofText_render_and_ofText_informal {e : TypeExpr} (h : e.NamedBy IsPlainName) :
    ofText e.render = e ∧ ofText e.informal = e :=
  have hreadable := h.imp fun _ hname => hname.isReadable
  ⟨ofText_render hreadable, ofText_informal hreadable⟩

/-- A type with a name, a primitive type and a tuple in it. -/
theorem ofText_render_and_ofText_informal_of_dict :
    (dict (named "Color") (generic .list (tuple [primitive .int, named "Cell"]))).NamedBy
        IsPlainName ∧
      ofText "Dict[Color, List[Tuple[int, Cell]]]" =
        dict (named "Color") (generic .list (tuple [primitive .int, named "Cell"])) ∧
      ofText "Dict (Color) -> (List (Tuple (int), (Cell)))" =
        dict (named "Color") (generic .list (tuple [primitive .int, named "Cell"])) := by
  have hnames : (dict (named "Color") (generic .list
      (tuple [primitive .int, named "Cell"]))).NamedBy IsPlainName := by
    refine .dict (.named ⟨by decide, by decide, by decide⟩)
      (.generic (.tuple (List.cons_ne_nil _ _) ?_))
    exact List.forall_mem_cons.2 ⟨.primitive, List.forall_mem_singleton.2
      (.named ⟨by decide, by decide, by decide⟩)⟩
  exact ⟨hnames, ofText_render_and_ofText_informal hnames⟩

end TypeExpr

end NoteCheck.Signature
