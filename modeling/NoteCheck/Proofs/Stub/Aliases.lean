/-
# Aliases and the names that a module reads

An alias gives a meaning to a name that begins with an upper-case character. The lines that the
module itself brings along read names, too, and a note may hold any of them. The main statement,
`forall_alias_notMem_readNames_iff`: an alias takes the name of something that these lines read just
if the note holds the name of the exception that they raise, and no operation has it.
-/
import NoteCheck.Proofs.Stub.Names

namespace NoteCheck.Stub

open Signature

variable {operations : List Operation} {names : List String} {operation : Operation}
  {name : String}

/-! ## Which names have aliases -/

/-- The name begins with an upper-case character. -/
def IsCapital (name : String) : Prop := name.toList.head?.any Text.isUppercase = true

instance (name : String) : Decidable (IsCapital name) := inferInstanceAs (Decidable (_ = true))

/-- A name stands for a type just if it begins with an upper-case character and is not reserved. -/
theorem isSome_aliasFor_iff :
    (aliasFor name).isSome = true ↔ name ∉ reservedNames ∧ IsCapital name := by
  have hdomains : ∀ m ∈ domainAliases, IsCapital m.1 := by decide
  have hspellings : ∀ m ∈ Primitive.spellings, if m.2.name = m.1 then ¬IsCapital m.1
      else IsCapital m.1 := by decide
  rw [aliasFor]
  split
  · rename_i hreserved
    exact iff_of_false Bool.false_ne_true fun h => h.1 (List.contains_iff_mem.1 hreserved)
  rename_i hreserved
  rw [List.contains_iff_mem] at hreserved
  split
  · rename_i target hlookup
    obtain ⟨before, after, hmem, -⟩ := List.lookup_eq_some_iff.1 hlookup
    exact iff_of_true rfl ⟨hreserved, hdomains (name, target) (by rw [hmem]; simp)⟩
  split
  · rename_i p hspelling
    obtain ⟨before, after, hmem, -⟩ := List.lookup_eq_some_iff.1 hspelling
    have hcapital := hspellings (name, p) (by rw [hmem]; simp)
    split at hcapital
    · rename_i hname
      rw [if_pos hname]
      exact iff_of_false Bool.false_ne_true fun h => hcapital h.2
    · rename_i hname
      rw [if_neg hname]
      exact iff_of_true rfl ⟨hreserved, hcapital⟩
  split
  · rename_i hcapital
    exact iff_of_true rfl ⟨hreserved, hcapital⟩
  · rename_i hcapital
    exact iff_of_false Bool.false_ne_true fun h => hcapital h.2

/-- The names of aliases are those that begin with an upper-case character, are not reserved, and
are not the names of operations. -/
theorem mem_alias_iff : name ∈ (aliases operations names).map Prod.fst ↔
    name ∈ names ∧ name ∉ operations.map Operation.name ∧ name ∉ reservedNames ∧
      IsCapital name := by
  constructor
  · intro h
    obtain ⟨bound, hbound, rfl⟩ := List.mem_map.1 h
    obtain ⟨hname, hfree, -, -, htarget⟩ := mem_aliases hbound
    exact ⟨hname, hfree, isSome_aliasFor_iff.1 (by rw [htarget]; rfl)⟩
  · rintro ⟨hname, hfree, halias⟩
    have hfold : name ≠ foldName := by
      rintro rfl
      exact absurd halias.2 (by decide)
    obtain ⟨target, htarget⟩ := Option.isSome_iff_exists.1 (isSome_aliasFor_iff.2 halias)
    refine List.mem_map.2
      ⟨(name, target), List.mem_filterMap.2 ⟨name, ?_, by rw [htarget]; rfl⟩, rfl⟩
    refine List.mem_filter.2 ⟨hname, ?_⟩
    rw [Bool.and_eq_true, Bool.not_eq_true', bne_iff_ne, List.contains_eq_mem,
      decide_eq_false_iff_not]
    exact ⟨hfree, hfold⟩

/-! ## Names that a module reads -/

/-- The declaration of an operation without its name and its types. -/
def fixedPart (operation : Operation) : String :=
  declaration ⟨"", operation.parameters.map fun _ => .named "", .named ""⟩

/-- The identifiers that a module brings along: those of its first line, of the declarations that
are in every module, and of the declarations of operations. -/
def readNames (operations : List Operation) : List String :=
  (Text.identifiers header.toList ++ Text.identifiers helpers.toList ++
    operations.flatMap fun operation => Text.identifiers (fixedPart operation).toList).map
      String.ofList

/-- The name of the exception that the functions of a module raise. -/
def raisedName : String := "NotImplementedError"

theorem identifiers_header : Text.identifiers header.toList =
    (["from", "typing", "import"] ++ importedNames).map String.toList := by
  decide +kernel

theorem identifiers_helpers : Text.identifiers helpers.toList =
    ["T", "TypeVar", "T", "U", "TypeVar", "U", "def", foldName, "initial", "T", "items", "Iterable",
      "U", "update", "Callable", "T", "U", "T", "T", "raise", raisedName].map String.toList := by
  decide +kernel

/-- The names of the parameters of an operation. -/
def argumentNames (operation : Operation) : List (List Char) :=
  operation.parameters.mapIdx fun i _ => (s!"arg{i}").toList

theorem toList_fixedPart (operation : Operation) : (fixedPart operation).toList = "def ".toList ++
    '(' :: ([',', ' '].intercalate ((argumentNames operation).map (· ++ [':', ' '])) ++
      ')' :: " -> :\n    raise NotImplementedError\n".toList) := by
  have hparameters : (argumentNames operation).map (· ++ [':', ' ']) =
      operation.parameters.mapIdx fun i _ => (s!"arg{i}: ").toList := by
    rw [argumentNames, map_mapIdx]
    refine congrArg (fun f => operation.parameters.mapIdx f) (funext₂ fun i _ => ?_)
    simp [ToString.toString]
  rw [hparameters, fixedPart, declaration, mapIdx_map]
  simp [String.toList_intercalate, ToString.toString, map_mapIdx, TypeExpr.render]

theorem identifiers_fixedPart (operation : Operation) :
    Text.identifiers (fixedPart operation).toList =
      "def".toList :: (argumentNames operation ++ ["raise".toList, raisedName.toList]) := by
  have hargument : ∀ argument ∈ argumentNames operation,
      Text.identifiers (argument ++ [':', ' ']) = [argument] := by
    intro argument hmem
    obtain ⟨i, -, rfl⟩ := List.mem_mapIdx.1 hmem
    rw [Text.identifiers_append_cons rfl,
      Text.identifiers_of_isIdentifier (isName_argument i).isIdentifier]
    rfl
  rw [toList_fixedPart, Text.identifiers_append_cons rfl, Text.identifiers_append_cons rfl,
    Text.identifiers_intercalate, List.flatMap_map, List.flatMap_congr hargument,
    List.flatMap_singleton']
  rfl

/-- Of the names that a module reads, only that of the exception could have an alias. -/
theorem isSome_aliasFor_of_mem_readNames (h : name ∈ readNames operations)
    (halias : (aliasFor name).isSome = true) : name = raisedName := by
  obtain ⟨hreserved, hcapital⟩ := isSome_aliasFor_iff.1 halias
  have hfixed : ∀ word ∈ Text.identifiers header.toList ++ Text.identifiers helpers.toList,
      String.ofList word ∈ reservedNames ∨ ¬IsCapital (String.ofList word) ∨
        String.ofList word = raisedName := by
    rw [identifiers_header, identifiers_helpers]
    decide
  obtain ⟨word, hword, rfl⟩ := List.mem_map.1 h
  obtain hword | hword := List.mem_append.1 hword
  · obtain h | h | h := hfixed word hword
    · exact absurd h hreserved
    · exact absurd hcapital h
    · exact h
  · obtain ⟨operation, -, hword⟩ := List.mem_flatMap.1 hword
    rw [identifiers_fixedPart] at hword
    simp only [List.mem_cons, List.mem_append, List.mem_nil_iff, or_false] at hword
    obtain rfl | hargument | rfl | rfl := hword
    · exact absurd hcapital (by decide)
    · obtain ⟨i, -, rfl⟩ := List.mem_mapIdx.1 hargument
      have hlower : ¬IsCapital (String.ofList (s!"arg{i}").toList) := by
        simp [IsCapital, ToString.toString]
        decide
      exact absurd hcapital hlower
    · exact absurd hcapital (by decide)
    · exact String.ofList_toList

theorem raisedName_mem_readNames : raisedName ∈ readNames operations := by
  refine List.mem_map.2 ⟨raisedName.toList, ?_, String.ofList_toList⟩
  rw [identifiers_header, identifiers_helpers]
  exact List.mem_append_left _ (List.mem_append_right _ (by decide))

/-- The aliases keep clear of the names that a module reads just if the note does not hold the name
of the exception, or declares an operation with this name. -/
theorem forall_alias_notMem_readNames_iff :
    (∀ name ∈ (aliases operations names).map Prod.fst, name ∉ readNames operations) ↔
      (raisedName ∈ names → raisedName ∈ operations.map Operation.name) := by
  have halias : raisedName ∉ reservedNames ∧ IsCapital raisedName := by decide
  constructor
  · intro h hmem
    by_contra hfree
    exact h raisedName (mem_alias_iff.2 ⟨hmem, hfree, halias⟩) raisedName_mem_readNames
  · intro h name hname hread
    obtain ⟨hmem, hfree, hname⟩ := mem_alias_iff.1 hname
    obtain rfl := isSome_aliasFor_of_mem_readNames hread (isSome_aliasFor_iff.2 hname)
    exact hfree (h hmem)

/-- A note that holds the name of the exception, even in a comment, gives it another meaning. -/
theorem not_forall_alias_notMem_readNames :
    let paint : Operation := ⟨"paint", [.named "Grid"], .named "Grid"⟩
    let names := ["Grid", "NotImplementedError", "def", "f", "g", "paint", "return"]
    ¬∀ name ∈ (aliases [paint] names).map Prod.fst, name ∉ readNames [paint] := by
  intro paint names h
  exact h raisedName (mem_alias_iff.2 (by decide)) raisedName_mem_readNames

end NoteCheck.Stub
