/-
# Declarations are read back

A declaration is written between backticks on a line of its own. Its types are canonical, or
informal in parentheses, and either separator may stand between two domains. The main statement,
`holds_readDeclarations`: a note that declares operations in this way under a marker declares just
these, and of two operations of one name the later.
-/
import NoteCheck.Proofs.Note.Section
import NoteCheck.Proofs.Signature.RoundTrip
import NoteCheck.Proofs.Sorted
import NoteCheck.Signature.Operation
import Mathlib.Data.Bool.AllAny
import Mathlib.Data.List.Forall2
import Mathlib.Data.List.Induction
import Mathlib.Data.String.Basic

namespace NoteCheck.Signature

namespace TypeExpr

/-- A text for a type in a declaration: the canonical one, or the informal one in parentheses. -/
inductive Spelled (e : TypeExpr) : List Char → Prop
  | canonical : Spelled e e.render.toList
  | informal : Spelled e (parenthesised e.informal.toList)

/-- A name stands in a type. -/
inductive HasLeaf (name : String) : TypeExpr → Prop
  | named : HasLeaf name (named name)
  | element {container element} : HasLeaf name element → HasLeaf name (generic container element)
  | key {key value} : HasLeaf name key → HasLeaf name (dict key value)
  | value {key value} : HasLeaf name value → HasLeaf name (dict key value)
  | component {elements e} : e ∈ elements → HasLeaf name e → HasLeaf name (tuple elements)

end TypeExpr

namespace Operation

/-- The types of an operation: those of the parameters, and the one of the result. -/
def types (operation : Operation) : List TypeExpr := operation.parameters ++ [operation.result]

/-- An operation that can be declared: its name is an identifier, and so are the names in its
types, which do not stand for any type or a primitive one. -/
structure IsPlain (operation : Operation) : Prop where
  name : Text.isIdentifier operation.name.toList = true
  types : ∀ e ∈ operation.types, e.NamedBy TypeExpr.IsPlainName

/-- Texts for the domains of an operation, with either separator between two of them. -/
inductive SpelledDomains : List TypeExpr → List Char → Prop
  | none : SpelledDomains [] ['(', ')']
  | last {e text} : e.Spelled text → SpelledDomains [e] text
  | cons {e text next others rest} (separator : List Char) :
      separator = times ∨ separator = arrow → e.Spelled text →
      SpelledDomains (next :: others) rest →
      SpelledDomains (e :: next :: others) (text ++ ' ' :: (separator ++ ' ' :: rest))

/-- Texts that declare an operation. -/
inductive Spelled (operation : Operation) : List Char → Prop
  | mk {domains codomain} : SpelledDomains operation.parameters domains →
      operation.result.Spelled codomain →
      Spelled operation (operation.name.toList ++ ':' :: ' ' ::
        (domains ++ ' ' :: (arrow ++ ' ' :: codomain)))

end Operation

namespace TypeExpr

/-! ## The characters of types -/

/-- A property of characters holds in joined texts when it does in the parts and in the separator.
-/
theorem forall_mem_intercalate {p : Char → Prop} {separator : List Char} {parts : List (List Char)}
    (hseparator : ∀ c ∈ separator, p c) (hparts : ∀ part ∈ parts, ∀ c ∈ part, p c) :
    ∀ c ∈ separator.intercalate parts, p c := by
  induction parts with
  | nil => exact nofun
  | cons part parts ih =>
    obtain ⟨hpart, hparts⟩ := List.forall_mem_cons.1 hparts
    cases parts with
    | nil => rwa [List.intercalate_singleton]
    | cons next parts =>
      rw [List.intercalate_cons_cons]
      exact List.forall_mem_append.2 ⟨List.forall_mem_append.2 ⟨hpart, hseparator⟩, ih hparts⟩

section

variable {p : Char → Prop} (hchar : ∀ c, Text.isIdentifierChar c = true → p c)
include hchar

/-- A property of identifier characters holds in the words. -/
theorem forall_mem_word {word : String} (h : word ∈ words) : ∀ c ∈ word.toList, p c :=
  fun c hc => hchar c (isIdentifierChar_of_mem_words h c hc)

/-- A property of identifier characters holds in the names of primitive types. -/
theorem forall_mem_primitive (primitive : Primitive) : ∀ c ∈ primitive.name.toList, p c := by
  have hname : ∀ c ∈ primitive.name.toList, Text.isIdentifierChar c = true := by
    cases primitive <;> exact List.all_iff_forall_prop.1 (by decide)
  exact fun c hc => hchar c (hname c hc)

/-- The canonical form of a type is made of its names, identifiers, square brackets, commas and
blanks. -/
theorem forall_mem_render (hmark : ∀ c ∈ ['[', ']', ',', ' '], p c) {e : TypeExpr}
    (h : e.NamedBy fun name => ∀ c ∈ name.toList, p c) : ∀ c ∈ e.render.toList, p c := by
  obtain ⟨hopen, hclose, hcomma, hblank⟩ : p '[' ∧ p ']' ∧ p ',' ∧ p ' ' := by simpa using hmark
  induction h with
  | any =>
    have hany : ∀ c ∈ "Any".toList, Text.isIdentifierChar c = true :=
      List.all_iff_forall_prop.1 (by decide)
    exact fun c hc => hchar c (hany c hc)
  | primitive => exact forall_mem_primitive hchar _
  | named hname => exact hname
  | @generic container _ _ ih =>
    have hword := forall_mem_word hchar container.keyword_mem_words
    rw [toList_render_generic]
    simpa [or_imp, forall_and, hopen, hclose] using ⟨hword, ih⟩
  | dict _ _ ihkey ihvalue =>
    have hword := forall_mem_word hchar (show "Dict" ∈ words by decide)
    rw [toList_render_dict]
    simp only [List.forall_mem_append, List.forall_mem_cons]
    exact ⟨hword, hopen, ⟨ihkey, ⟨hcomma, nofun⟩, hblank, ihvalue⟩, hclose, nofun⟩
  | tuple _ _ ih =>
    have hword := forall_mem_word hchar (show "Tuple" ∈ words by decide)
    have hparts := forall_mem_intercalate (show ∀ c ∈ [',', ' '], p c by simp [hcomma, hblank])
      (List.forall_mem_map.2 ih)
    rw [toList_render_tuple]
    simp only [List.forall_mem_append, List.forall_mem_cons]
    exact ⟨hword, hopen, hparts, hclose, nofun⟩

/-- The informal notation of a type is made of identifiers, parentheses, commas, arrows and
blanks. -/
theorem forall_mem_informal (hmark : ∀ c ∈ ['(', ')', ',', '-', '>', ' '], p c) {e : TypeExpr}
    (h : e.NamedBy IsPlainName) : ∀ c ∈ e.informal.toList, p c := by
  obtain ⟨hopen, hclose, hcomma, hdash, hpoint, hblank⟩ :
      p '(' ∧ p ')' ∧ p ',' ∧ p '-' ∧ p '>' ∧ p ' ' := by simpa using hmark
  have hgroup : ∀ {cs : List Char}, (∀ c ∈ cs, p c) → ∀ c ∈ parenthesised cs, p c := by
    intro cs hcs
    rw [parenthesised]
    simp only [List.forall_mem_append, List.forall_mem_cons]
    exact ⟨hopen, hcs, hclose, List.forall_mem_nil _⟩
  induction h with
  | any =>
    have hany : ∀ c ∈ "Any".toList, Text.isIdentifierChar c = true :=
      List.all_iff_forall_prop.1 (by decide)
    exact fun c hc => hchar c (hany c hc)
  | primitive => exact forall_mem_primitive hchar _
  | named hname => exact fun c hc => hchar c (hname.isIdentifierChar hc)
  | @generic container _ _ ih =>
    have hword := forall_mem_word hchar container.keyword_mem_words
    rw [toList_informal_generic]
    simp only [List.forall_mem_append, List.forall_mem_cons]
    exact ⟨hword, hblank, hgroup ih⟩
  | dict _ _ ihkey ihvalue =>
    have hword := forall_mem_word hchar (show "Dict" ∈ words by decide)
    rw [toList_informal_dict]
    simp only [List.forall_mem_append, List.forall_mem_cons]
    exact ⟨hword, hblank, hgroup ihkey, ⟨hblank, hdash, hpoint, hblank,
      List.forall_mem_nil _⟩, hgroup ihvalue⟩
  | tuple _ _ ih =>
    have hword := forall_mem_word hchar (show "Tuple" ∈ words by decide)
    have hparts := forall_mem_intercalate (show ∀ c ∈ [',', ' '], p c by simp [hcomma, hblank])
      (List.forall_mem_map.2 fun e he => hgroup (ih e he))
    rw [toList_informal_tuple]
    simp only [List.forall_mem_append, List.forall_mem_cons]
    exact ⟨hword, hblank, hparts⟩

end

/-- The canonical form of a type with plain names has no blanks around it. -/
theorem trimmed_render {e : TypeExpr} (h : e.NamedBy IsPlainName) :
    Text.Trimmed e.render.toList := by
  have hword : ∀ {cs : List Char}, (∀ c ∈ cs, Text.isIdentifierChar c = true) →
      Text.Trimmed cs := fun hcs => Text.trimmed_of_forall fun c hc =>
    Bool.eq_false_iff.2 fun hblank =>
      absurd (hcs c hc) (by rw [Text.isIdentifierChar_eq_false_of_isBlank hblank]; decide)
  cases h with
  | any => exact hword (List.all_iff_forall_prop.1 (by decide))
  | @primitive p => exact hword (forall_mem_primitive (fun _ hc => hc) p)
  | named hname => exact hword fun _ hc => hname.isIdentifierChar hc
  | @generic container =>
    rw [toList_render_generic]
    exact trimmed_bracketed container.keyword_mem_words _
  | dict =>
    rw [toList_render_dict]
    exact trimmed_bracketed (by decide) _
  | tuple =>
    rw [toList_render_tuple]
    exact trimmed_bracketed (by decide) _

/-- No notation of a type is empty. -/
theorem notations_ne_nil {e : TypeExpr} (h : e.NamedBy IsPlainName) :
    e.render.toList ≠ [] ∧ e.informal.toList ≠ [] := by
  cases h with
  | any => decide
  | @primitive p => cases p <;> decide
  | named hname =>
    obtain ⟨-, hne, -⟩ := Text.isIdentifier_iff.1 hname.isIdentifier
    exact ⟨hne, hne⟩
  | generic => simp [toList_render_generic, toList_informal_generic]
  | dict => simp [toList_render_dict, toList_informal_dict]
  | tuple => simp [toList_render_tuple, toList_informal_tuple]

/-- The names of types side by side are those of each of them. -/
theorem namesOfAll_eq (elements : List TypeExpr) :
    namesOfAll elements = elements.flatMap names := by
  induction elements with
  | nil => rfl
  | cons e elements ih => rw [namesOfAll, ih, List.flatMap_cons]

/-- The identifiers in a type are the names in it. -/
theorem mem_names_iff {e : TypeExpr} (h : e.NamedBy IsPlainName) {name : String} :
    name ∈ e.names ↔ e.HasLeaf name := by
  induction h with
  | any => exact iff_of_false nofun nofun
  | primitive => exact iff_of_false nofun nofun
  | @named leaf hleaf =>
    rw [names, Text.identifiers_of_isIdentifier hleaf.isIdentifier, List.map_singleton,
      String.ofList_toList, List.mem_singleton]
    constructor
    · rintro rfl
      exact .named
    · rintro ⟨⟩
      rfl
  | generic _ ih =>
    rw [names, ih]
    constructor
    · exact .element
    · rintro (_ | h)
      exact h
  | dict _ _ ihkey ihvalue =>
    rw [names, List.mem_append, ihkey, ihvalue]
    constructor
    · rintro (h | h)
      · exact .key h
      · exact .value h
    · rintro (_ | _ | h | h)
      · exact .inl h
      · exact .inr h
  | @tuple elements _ _ ih =>
    rw [names, namesOfAll_eq, List.mem_flatMap]
    constructor
    · rintro ⟨e, he, hname⟩
      exact .component he ((ih e he).1 hname)
    · rintro (_ | _ | _ | _ | ⟨he, hname⟩)
      exact ⟨_, he, (ih _ he).2 hname⟩

/-! ## Types in a declaration -/

/-- What a declaration needs of the text of a type: it denotes the type, and no separator and no
end of a declaration is found in it. -/
structure IsPart (e : TypeExpr) (text : List Char) : Prop where
  denotes : ofChars text = e
  trimmed : Text.Trimmed text
  ne_nil : text ≠ []
  ne_unit : text ≠ ['(', ')']
  height : TopLevel.height text = 0
  arrow : TopLevel.Uncut Operation.arrow 0 text
  times : TopLevel.Uncut Operation.times 0 text
  chars : ∀ c ∈ text, c ≠ '`' ∧ c ≠ '\n'

/-- A character of identifiers is none that no identifier holds. -/
theorem ne_of_isIdentifierChar {c d : Char} (hd : Text.isIdentifierChar d = false)
    (hc : Text.isIdentifierChar c = true) : c ≠ d := by
  rintro rfl
  exact Bool.false_ne_true (hd.symm.trans hc)

/-- The canonical form of a type with plain names can stand in a declaration. -/
theorem isPart_render {e : TypeExpr} (h : e.NamedBy IsPlainName) : IsPart e e.render.toList := by
  have hreadable := h.imp fun _ hname => hname.isReadable
  have hchars : ∀ c ∈ e.render.toList, c ≠ '(' ∧ c ≠ '-' ∧ c ≠ '×' ∧ c ≠ '`' ∧ c ≠ '\n' := by
    have hname : ∀ c, Text.isIdentifierChar c = true →
        c ≠ '(' ∧ c ≠ '-' ∧ c ≠ '×' ∧ c ≠ '`' ∧ c ≠ '\n' := fun c hc =>
      ⟨ne_of_isIdentifierChar (by decide) hc, ne_of_isIdentifierChar (by decide) hc,
        ne_of_isIdentifierChar (by decide) hc, ne_of_isIdentifierChar (by decide) hc,
        ne_of_isIdentifierChar (by decide) hc⟩
    exact forall_mem_render hname (List.all_iff_forall_prop.1 (by decide))
      (h.imp fun _ hplain c hc => hname c (hplain.isIdentifierChar hc))
  have hbalanced := balanced_render (hreadable.imp fun _ hname => hname.balanced)
  refine ⟨ofText_render hreadable, trimmed_render h, (notations_ne_nil h).1, ?_,
    hbalanced.height_eq_zero, ?_, ?_, fun c hc => (hchars c hc).2.2.2⟩
  · intro hunit
    rw [hunit] at hchars
    exact (hchars '(' List.mem_cons_self).1 rfl
  · exact TopLevel.uncut_of_notMem fun hmem => (hchars _ hmem).2.1 rfl
  · exact TopLevel.uncut_of_notMem fun hmem => (hchars _ hmem).2.2.1 rfl

/-- The informal notation in parentheses can stand in a declaration. -/
theorem isPart_informal {e : TypeExpr} (h : e.NamedBy IsPlainName) :
    IsPart e (parenthesised e.informal.toList) := by
  have hreadable := h.imp fun _ hname => hname.isReadable
  have hbalanced := balanced_informal (hreadable.imp fun _ hname => hname.balanced)
  have hchars : ∀ c ∈ e.informal.toList, c ≠ '`' ∧ c ≠ '\n' :=
    forall_mem_informal (fun c hc => ⟨ne_of_isIdentifierChar (by decide) hc,
      ne_of_isIdentifierChar (by decide) hc⟩) (List.all_iff_forall_prop.1 (by decide)) h
  refine ⟨?_, trimmed_parenthesised _, parenthesised_ne_nil _, ?_,
    (balanced_parenthesised hbalanced).height_eq_zero,
    uncut_parenthesised (by decide) (List.cons_ne_nil _ _) hbalanced,
    uncut_parenthesised (by decide) (List.cons_ne_nil _ _) hbalanced, ?_⟩
  · rw [ofChars_parenthesised hbalanced]
    exact ofText_informal hreadable
  · intro hunit
    have hnil : e.informal.toList = [] := by simpa [parenthesised] using hunit
    exact (notations_ne_nil h).2 hnil
  · rw [parenthesised]
    simp only [List.forall_mem_append, List.forall_mem_cons]
    exact ⟨by decide, hchars, by decide, List.forall_mem_nil _⟩

/-- Every text for a type with plain names can stand in a declaration. -/
theorem Spelled.isPart {e : TypeExpr} {text : List Char} (h : e.NamedBy IsPlainName)
    (hs : e.Spelled text) : IsPart e text := by
  cases hs with
  | canonical => exact isPart_render h
  | informal => exact isPart_informal h

/-! ## Blanks around a part -/

/-- Blanks around a text make no cut. -/
theorem uncut_spaced {separator text : List Char} (hne : separator ≠ [])
    (hblank : separator.head? ≠ some ' ') (hcut : TopLevel.Uncut separator 0 text) :
    TopLevel.Uncut separator 0 (' ' :: (text ++ [' '])) := by
  have hfirst : TopLevel.Uncut separator 0 [' '] := TopLevel.uncut_singleton (fun _ => hblank) hne
  refine hfirst.append (a := [' ']) (hcut.append ?_)
  exact TopLevel.uncut_singleton (fun _ => hblank) hne

section

variable {e : TypeExpr} {text : List Char} (h : IsPart e text)
include h

/-- Blanks around the text of a type are left out again. -/
theorem IsPart.trim_eq : Text.trim (' ' :: (text ++ [' '])) = text := by
  have htrim := h.trimmed.trim_append_eq (a := [' ']) (b := [' '])
    (List.forall_mem_singleton.2 rfl) (List.forall_mem_singleton.2 rfl)
  simpa using htrim

/-- With blanks around it, the text of a type opens as many brackets as it closes. -/
theorem IsPart.height_spaced : TopLevel.height (' ' :: (text ++ [' '])) = 0 := by
  have hblank : TopLevel.weight ' ' = 0 := by decide
  simp [h.height, hblank]

end

end TypeExpr

namespace Operation

open TypeExpr

/-! ## Domains -/

/-- The first domain of a group. -/
theorem domains_of_split {e : TypeExpr} {text group rest : List Char} (h : IsPart e text)
    (hsplit : TopLevel.split times group =
      (' ' :: (text ++ [' '])) :: TopLevel.split times rest) :
    domains group = e :: domains rest := by
  have hkept : (!text.isEmpty && text != ['(', ')']) = true := by
    simp [h.ne_nil, h.ne_unit]
  rw [domains, hsplit, List.map_cons, h.trim_eq, List.filter_cons_of_pos (by simpa using hkept),
    List.map_cons, h.denotes]
  rfl

/-- The text of a type between blanks is one domain. -/
theorem domains_spaced {e : TypeExpr} {text : List Char} (h : IsPart e text) :
    domains (' ' :: (text ++ [' '])) = [e] := by
  have hkept : (!text.isEmpty && text != ['(', ')']) = true := by
    simp [h.ne_nil, h.ne_unit]
  have hsplit := (uncut_spaced (show times ≠ [] by decide) (by decide) h.times).split_eq
  rw [domains, hsplit, List.map_singleton, h.trim_eq,
    List.filter_cons_of_pos (by simpa using hkept), List.filter_nil, List.map_singleton, h.denotes]

/-- The arrows in a signature divide groups with the domains in them from the codomain. -/
theorem SpelledDomains.exists_groups {types : List TypeExpr} {text : List Char}
    (hs : SpelledDomains types text) (hplain : ∀ e ∈ types, e.NamedBy IsPlainName)
    {codomain : List Char} (hcodomain : TopLevel.Uncut arrow 0 codomain) :
    ∃ groups, TopLevel.split arrow (' ' :: (text ++ ' ' :: (arrow ++ ' ' :: codomain))) =
      groups ++ [' ' :: codomain] ∧ groups ≠ [] ∧ groups.flatMap domains = types := by
  have hlast : TopLevel.split arrow (' ' :: codomain) = [' ' :: codomain] := by
    have hblank : TopLevel.Uncut arrow 0 [' '] :=
      TopLevel.uncut_singleton (fun _ => by decide) (List.cons_ne_nil _ _)
    exact (hblank.append (a := [' ']) hcodomain).split_eq
  have harrow : ∀ {e : TypeExpr} {text : List Char}, IsPart e text → ∀ rest,
      TopLevel.split arrow (' ' :: (text ++ ' ' :: (arrow ++ rest))) =
        (' ' :: (text ++ [' '])) :: TopLevel.split arrow rest := by
    intro e text h rest
    have hcut := uncut_spaced (show arrow ≠ [] by decide) (by decide) h.arrow
    simpa using TopLevel.split_append hcut h.height_spaced (List.cons_ne_nil _ _) rest
  -- by induction on the spelling, with one separator in each step
  induction hs with
  | none =>
    refine ⟨[[' ', '(', ')', ' ']], ?_, List.cons_ne_nil _ _, by decide⟩
    have hcut : TopLevel.Uncut arrow 0 [' ', '(', ')', ' '] :=
      TopLevel.uncut_of_notMem (by decide)
    have hsplit := TopLevel.split_append hcut (by decide) (List.cons_ne_nil _ _) (' ' :: codomain)
    rw [hlast] at hsplit
    exact hsplit
  | @last e text hspelled =>
    have hpart := hspelled.isPart (hplain e List.mem_cons_self)
    refine ⟨[' ' :: (text ++ [' '])], ?_, List.cons_ne_nil _ _, ?_⟩
    · rw [harrow hpart, hlast]
      rfl
    · rw [List.flatMap_singleton, domains_spaced hpart]
  | @cons e text next others rest separator hseparator hspelled _ ih =>
    obtain ⟨he, hothers⟩ := List.forall_mem_cons.1 hplain
    have hpart := hspelled.isPart he
    obtain ⟨groups, hsplit, hne, hdomains⟩ := ih hothers
    obtain rfl | rfl := hseparator
    · -- the domain joins the first group of those that follow
      obtain ⟨group, groups, rfl⟩ := List.exists_cons_of_ne_nil hne
      have hcut : TopLevel.Uncut arrow 0 ((' ' :: (text ++ [' '])) ++ times) := by
        refine (uncut_spaced (List.cons_ne_nil _ _) (by decide) hpart.arrow).append ?_
        rw [hpart.height_spaced]
        exact TopLevel.uncut_of_notMem (by decide)
      obtain ⟨first, others', hfirst, hwhole⟩ := hcut
        (' ' :: (rest ++ ' ' :: (arrow ++ ' ' :: codomain)))
      have hheight : TopLevel.height ((' ' :: (text ++ [' '])) ++ times) = 0 := by
        rw [TopLevel.height_append, hpart.height_spaced]
        decide
      rw [hheight, Int.add_zero, ← TopLevel.split, hsplit] at hfirst
      obtain ⟨rfl, rfl⟩ := List.cons.inj hfirst
      refine ⟨((' ' :: (text ++ [' '])) ++ times ++ group) :: groups, ?_, List.cons_ne_nil _ _, ?_⟩
      · rw [← TopLevel.split] at hwhole
        simpa using hwhole
      · have htimes := uncut_spaced (show times ≠ [] by decide) (by decide) hpart.times
        have hgroup := TopLevel.split_append htimes hpart.height_spaced (List.cons_ne_nil _ _) group
        rw [List.flatMap_cons, List.append_assoc, domains_of_split hpart hgroup,
          List.cons_append, ← List.flatMap_cons, hdomains]
    -- an arrow ends the group, of which the domain is the only member
    · refine ⟨(' ' :: (text ++ [' '])) :: groups, ?_, List.cons_ne_nil _ _, ?_⟩
      · have hfirst := harrow hpart (' ' :: (rest ++ ' ' :: (arrow ++ ' ' :: codomain)))
        rw [hsplit] at hfirst
        simpa using hfirst
      · rw [List.flatMap_cons, domains_spaced hpart, hdomains]
        rfl

/-! ## Declarations -/

/-- The types of the parameters of a plain operation have plain names. -/
theorem IsPlain.forall_parameters {operation : Operation} (h : operation.IsPlain) :
    ∀ e ∈ operation.parameters, e.NamedBy IsPlainName :=
  fun e he => h.types e (List.mem_append_left _ he)

/-- The type of the result of a plain operation has plain names. -/
theorem IsPlain.result {operation : Operation} (h : operation.IsPlain) :
    operation.result.NamedBy IsPlainName :=
  h.types _ (List.mem_append_right _ (List.mem_singleton_self _))

/-- The name of a plain operation holds only characters of identifiers. -/
theorem IsPlain.ne_of_mem_name {operation : Operation} (h : operation.IsPlain) {c d : Char}
    (hc : c ∈ operation.name.toList) (hd : Text.isIdentifierChar d = false) : c ≠ d :=
  ne_of_isIdentifierChar hd ((Text.isIdentifier_iff.1 h.name).1 c hc)

/-- The identifiers in the types of an operation are the names in them. -/
theorem IsPlain.mem_typeNames_iff {operation : Operation} (h : operation.IsPlain) {name : String} :
    name ∈ operation.typeNames ↔ ∃ e ∈ operation.types, e.HasLeaf name := by
  rw [typeNames, Operation.types, List.mem_append, List.mem_flatMap, mem_names_iff h.result]
  simp only [List.mem_append, List.mem_singleton, or_and_right, exists_or, exists_eq_left]
  refine or_congr_left (exists_congr fun e => and_congr_right fun he => ?_)
  exact mem_names_iff (h.forall_parameters e he)

/-- A text that declares an operation is read as the operation. -/
theorem ofDeclaration?_of_spelled {operation : Operation} {text : List Char}
    (h : operation.IsPlain) (hs : operation.Spelled text) :
    ofDeclaration? text = some operation := by
  obtain @⟨domains, codomain, hdomains, hresult⟩ := hs
  have hpart := hresult.isPart h.result
  obtain ⟨groups, hsplit, hne, hparameters⟩ :=
    hdomains.exists_groups h.forall_parameters hpart.arrow
  have hname : ∀ c ∈ operation.name.toList, (c != ':') = true := fun c hc =>
    bne_iff_ne.2 (h.ne_of_mem_name hc (by decide))
  have htrimmed : Text.Trimmed operation.name.toList :=
    Text.trimmed_of_forall fun c hc => Bool.eq_false_iff.2 fun hblank =>
      h.ne_of_mem_name hc (Text.isIdentifierChar_eq_false_of_isBlank hblank) rfl
  have hcodomain : Text.trim (' ' :: codomain) = codomain := by
    have htrim := hpart.trimmed.trim_append_eq (a := [' ']) (b := [])
      (List.forall_mem_singleton.2 rfl) nofun
    simpa using htrim
  have hlast : (groups ++ [' ' :: codomain]).getLastD [] = ' ' :: codomain := by simp
  rw [ofDeclaration?, List.dropWhile_append_of_pos hname, List.takeWhile_append_of_pos hname]
  simp only [List.dropWhile_cons, List.takeWhile_cons, bne_self_eq_false, Bool.false_eq_true,
    if_false, List.append_nil]
  rw [hsplit, hlast, htrimmed.trim_eq, hcodomain, h.name, List.dropLast_concat, hparameters,
    ofChars_blank_cons, hpart.denotes, String.ofList_toList]
  simp [hne, hpart.ne_nil]

/-- Neither a backtick nor a line break stands in the texts for domains. -/
theorem SpelledDomains.forall_mem {types : List TypeExpr} {text : List Char}
    (hs : SpelledDomains types text) (hplain : ∀ e ∈ types, e.NamedBy IsPlainName) :
    ∀ c ∈ text, c ≠ '`' ∧ c ≠ '\n' := by
  induction hs with
  | none => exact List.all_iff_forall_prop.1 (by decide)
  | @last e _ hspelled => exact (hspelled.isPart (hplain e List.mem_cons_self)).chars
  | cons separator hseparator hspelled _ ih =>
    obtain ⟨he, hothers⟩ := List.forall_mem_cons.1 hplain
    have hchars : ∀ c ∈ separator, c ≠ '`' ∧ c ≠ '\n' := by
      obtain rfl | rfl := hseparator <;> exact List.all_iff_forall_prop.1 (by decide)
    simp only [List.forall_mem_append, List.forall_mem_cons]
    exact ⟨(hspelled.isPart he).chars, by decide, hchars, by decide, ih hothers⟩

/-- A declaration ends neither its backticks nor its line. -/
theorem Spelled.forall_mem {operation : Operation} {text : List Char} (h : operation.IsPlain)
    (hs : operation.Spelled text) : ∀ c ∈ text, c ≠ '`' ∧ c ≠ '\n' := by
  obtain ⟨hdomains, hresult⟩ := hs
  simp only [List.forall_mem_append, List.forall_mem_cons]
  refine ⟨fun c hc => ?_, by decide, by decide, hdomains.forall_mem h.forall_parameters,
    by decide, List.all_iff_forall_prop.1 (by decide), by decide,
    (hresult.isPart h.result).chars⟩
  exact ⟨h.ne_of_mem_name hc (by decide), h.ne_of_mem_name hc (by decide)⟩

end Operation

namespace Declarations

open Operation

/-- A text between backticks. -/
def quoted (text : List Char) : List Char := '`' :: (text ++ ['`'])

/-- A text between backticks is found as it is. -/
theorem quotedTexts_quoted {text : List Char} (hne : text ≠ []) (h : ∀ c ∈ text, c ≠ '`') :
    quotedTexts (quoted text) = [text] := by
  have hpieces : Text.piecesBetween (· == '`') (text ++ ['`']) = [text, []] :=
    Text.piecesBetween_append (by simpa using h) rfl []
  rw [quotedTexts, quoted, Text.piecesBetween, if_pos (by decide), hpieces, List.tail_cons,
    quotedPieces, if_neg (by simpa using hne)]
  rfl

/-- A declaration is not empty. -/
theorem ne_nil_of_spelled {operation : Operation} {text : List Char}
    (hs : operation.Spelled text) : text ≠ [] := by
  obtain ⟨-, -⟩ := hs
  simp

/-- A line with a declaration does not end its section. -/
theorem fence?_quoted {text : List Char} (hne : text ≠ []) (h : ∀ c ∈ text, c ≠ '`') :
    Note.fence? (quoted text) = none := by
  obtain ⟨c, text, rfl⟩ := List.exists_cons_of_ne_nil hne
  have hc : c ≠ '`' := h c List.mem_cons_self
  have htrim : Text.trimStart (quoted (c :: text)) = quoted (c :: text) := by
    rw [Text.trimStart, quoted, List.dropWhile_cons_of_neg (by decide)]
  rw [Note.fence?, htrim]
  simp [quoted, hc]

/-- Lines with declarations between backticks declare their operations. -/
theorem declared_quoted {operations : List Operation} {texts : List (List Char)}
    (hplain : ∀ o ∈ operations, o.IsPlain)
    (h : List.Forall₂ Operation.Spelled operations texts) :
    declared (texts.map quoted) = operations := by
  rw [declared]
  induction h with
  | nil => rfl
  | @cons operation text operations texts hspelled _ ih =>
    obtain ⟨hplain, hothers⟩ := List.forall_mem_cons.1 hplain
    have hquoted := quotedTexts_quoted (ne_nil_of_spelled hspelled)
      fun c hc => (hspelled.forall_mem hplain c hc).1
    rw [List.map_cons, List.flatMap_cons, hquoted, List.singleton_append, List.filterMap_cons,
      ofDeclaration?_of_spelled hplain hspelled, ih hothers]

/-- Lines with declarations are shown as they are, and do not end their section. -/
theorem forall_mem_quoted {operations : List Operation} {texts : List (List Char)}
    (hplain : ∀ o ∈ operations, o.IsPlain)
    (h : List.Forall₂ Operation.Spelled operations texts) :
    ∀ line ∈ texts.map quoted, ('\n' ∉ line ∧ line.getLast? ≠ some '\r') ∧
      Note.fence? line = none ∧ Note.headingLevel line = none := by
  induction h with
  | nil => exact nofun
  | @cons operation text operations texts hspelled _ ih =>
    obtain ⟨hplain, hothers⟩ := List.forall_mem_cons.1 hplain
    have hchars := hspelled.forall_mem hplain
    refine List.forall_mem_cons.2 ⟨⟨⟨fun hmem => ?_, ?_⟩, ?_, ?_⟩, ih hothers⟩
    · have hbreak : '\n' ∈ text := by simpa [quoted] using hmem
      exact (hchars _ hbreak).2 rfl
    · rw [quoted, ← List.cons_append, List.getLast?_concat]
      decide
    · exact fence?_quoted (ne_nil_of_spelled hspelled) fun c hc => (hchars c hc).1
    · exact Note.headingLevel_cons_eq_none (by decide) (by decide) _

/-! ## What a note declares -/

/-- The last of the operations that have the name of one. -/
def IsLast (operations : List Operation) (operation : Operation) : Prop :=
  ∃ before after, operations = before ++ operation :: after ∧
    ∀ later ∈ after, later.name ≠ operation.name

/-- After one operation more, it is the last of its name, and those of other names stay as they are.
-/
theorem isLast_concat_iff {operations : List Operation} {operation last : Operation} :
    IsLast (operations ++ [last]) operation ↔
      operation = last ∨ IsLast operations operation ∧ operation.name ≠ last.name := by
  constructor
  · rintro ⟨before, after, hsplit, hafter⟩
    rcases List.eq_nil_or_concat after with rfl | ⟨after, final, rfl⟩
    · obtain ⟨-, hlast⟩ := List.append_inj' hsplit rfl
      exact .inl (List.singleton_inj.1 hlast).symm
    · rw [List.concat_eq_append, ← List.cons_append, ← List.append_assoc] at hsplit
      obtain ⟨rfl, hlast⟩ := List.append_inj' hsplit rfl
      obtain rfl := List.singleton_inj.1 hlast
      rw [List.concat_eq_append, List.forall_mem_append, List.forall_mem_singleton] at hafter
      exact .inr ⟨⟨before, after, rfl, hafter.1⟩, hafter.2.symm⟩
  · rintro (rfl | ⟨⟨before, after, rfl, hafter⟩, hname⟩)
    · exact ⟨operations, [], rfl, nofun⟩
    · refine ⟨before, after ++ [last], by simp, ?_⟩
      exact List.forall_mem_append.2 ⟨hafter, List.forall_mem_singleton.2 hname.symm⟩

/-- Adding operations one after the other keeps the last one of every name, in the order of the
names, and the names in the types of all operations, in their order. -/
theorem foldl_add (operations : List Operation) :
    let declarations := operations.foldl add ⟨[], []⟩
    Sorted.Increasing Operation.name declarations.operations ∧
      (∀ operation, operation ∈ declarations.operations ↔ IsLast operations operation) ∧
      Sorted.Increasing id declarations.names ∧
      ∀ name, name ∈ declarations.names ↔ ∃ operation ∈ operations, name ∈ operation.typeNames := by
  induction operations using List.reverseRecOn with
  | nil =>
    refine ⟨.nil, fun operation => iff_of_false nofun ?_, .nil, fun name => iff_of_false nofun ?_⟩
    · rintro ⟨before, after, hsplit, -⟩
      simp at hsplit
    · rintro ⟨operation, hmem, -⟩
      cases hmem
  | append_singleton operations last ih =>
    obtain ⟨hsorted, hmem, hnames, htypes⟩ := ih
    obtain ⟨hnames', hmem'⟩ := Sorted.foldl_insert hnames last.typeNames
    rw [List.foldl_append]
    refine ⟨Sorted.increasing_put hsorted, fun operation => ?_, hnames', fun name => ?_⟩
    · rw [isLast_concat_iff, ← hmem]
      exact Sorted.mem_put_iff hsorted
    · refine (hmem' name).trans ?_
      rw [htypes]
      simp only [List.mem_append, List.mem_singleton, or_and_right, exists_or, exists_eq_left]
      exact or_comm

/-- The declarations hold the last operation of every name, in the order of the names, and the
names in the types of all operations, in their order. -/
structure Holds (declarations : Declarations) (operations : List Operation) : Prop where
  sorted : Sorted.Increasing Operation.name declarations.operations
  mem_operations : ∀ operation, operation ∈ declarations.operations ↔ IsLast operations operation
  sorted_names : Sorted.Increasing id declarations.names
  mem_names : ∀ name, name ∈ declarations.names ↔
    ∃ operation ∈ operations, ∃ e ∈ operation.types, e.HasLeaf name

/-- Declarations that are added one after the other are held, the last ones of each name. -/
theorem holds_foldl_add {operations : List Operation} (h : ∀ o ∈ operations, o.IsPlain) :
    Holds (operations.foldl add ⟨[], []⟩) operations := by
  obtain ⟨hsorted, hmem, hnames, htypes⟩ := foldl_add operations
  refine ⟨hsorted, hmem, hnames, fun name => (htypes name).trans ?_⟩
  constructor
  · rintro ⟨operation, hoperation, hname⟩
    exact ⟨operation, hoperation, (h operation hoperation).mem_typeNames_iff.1 hname⟩
  · rintro ⟨operation, hoperation, hleaf⟩
    exact ⟨operation, hoperation, (h operation hoperation).mem_typeNames_iff.2 hleaf⟩

/-- A note in which operations are declared under a marker, each on a line of its own, declares
just these operations: of each name the last one, and the names in the types of all of them. -/
theorem holds_readDeclarations {marker : String} {before : List (List Char)}
    {operations : List Operation} {texts : List (List Char)}
    (hbefore : ∀ line ∈ before, '\n' ∉ line ∧ ¬Text.trim marker.toList <+: Text.trim line)
    (hmarker : '\n' ∉ marker.toList) (hplain : ∀ o ∈ operations, o.IsPlain)
    (htexts : List.Forall₂ Operation.Spelled operations texts) :
    Holds (readDeclarations
      (String.ofList (Text.unlines (before ++ marker.toList :: texts.map quoted))) marker)
      operations := by
  rw [readDeclarations, String.toList_ofList, Note.sectionLines?_unlines hbefore hmarker
    (forall_mem_quoted hplain htexts), Option.getD_some, ofLines, declared_quoted hplain htexts]
  exact holds_foldl_add hplain

/-- An operation that is declared twice, with both separators, both notations and the unit. -/
theorem holds_readDeclarations_of_redeclared :
    Holds (readDeclarations
      ("# Note\n## Operations\n`paint: Grid -> Color × (List (Cell)) -> Grid`\n" ++
        "`blank: () -> Grid`\n`paint: Dict[Color, Cell] -> (Grid)`\n") "## Operations")
      [⟨"paint", [.named "Grid", .named "Color", .generic .list (.named "Cell")], .named "Grid"⟩,
        ⟨"blank", [], .named "Grid"⟩,
        ⟨"paint", [.dict (.named "Color") (.named "Cell")], .named "Grid"⟩] := by
  have hgrid : TypeExpr.NamedBy TypeExpr.IsPlainName (.named "Grid") :=
    .named ⟨by decide, by decide, by decide⟩
  have hcolor : TypeExpr.NamedBy TypeExpr.IsPlainName (.named "Color") :=
    .named ⟨by decide, by decide, by decide⟩
  have hcell : TypeExpr.NamedBy TypeExpr.IsPlainName (.named "Cell") :=
    .named ⟨by decide, by decide, by decide⟩
  have hplain : ∀ o ∈ ([
      ⟨"paint", [.named "Grid", .named "Color", .generic .list (.named "Cell")], .named "Grid"⟩,
      ⟨"blank", [], .named "Grid"⟩,
      ⟨"paint", [.dict (.named "Color") (.named "Cell")], .named "Grid"⟩] : List Operation),
      o.IsPlain := by
    have hcells : TypeExpr.NamedBy TypeExpr.IsPlainName (.generic .list (.named "Cell")) :=
      .generic hcell
    have hdict : TypeExpr.NamedBy TypeExpr.IsPlainName (.dict (.named "Color") (.named "Cell")) :=
      .dict hcolor hcell
    simp only [List.forall_mem_cons]
    refine ⟨⟨by decide, ?_⟩, ⟨by decide, ?_⟩, ⟨by decide, ?_⟩, nofun⟩
    · simp [Operation.types, hgrid, hcolor, hcells]
    · simp [Operation.types, hgrid]
    · simp [Operation.types, hgrid, hdict]
  have hbefore : ∀ line ∈ ["# Note".toList], '\n' ∉ line ∧
      ¬Text.trim "## Operations".toList <+: Text.trim line := by decide
  have hmarker : '\n' ∉ "## Operations".toList := by decide
  have hholds := holds_readDeclarations hbefore hmarker hplain
    (.cons (.mk (.cons arrow (.inr rfl) .canonical (.cons times (.inl rfl) .canonical
        (.last .informal))) .canonical)
      (.cons (.mk .none .canonical) (.cons (.mk (.last .canonical) .informal) .nil)))
  -- the two texts are the same characters
  convert hholds using 2
  decide +kernel

end Declarations

end NoteCheck.Signature
