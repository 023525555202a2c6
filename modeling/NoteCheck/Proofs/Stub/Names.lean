/-
# The names that a module binds

The lines of a stub module before its code bind names: imported ones, aliases, the type variables,
the function that folds, and the operations. Aliases keep clear of all others, but a note may give
an operation any name. The main statement, `nodup_boundIn_iff`: no name is bound twice just if no
operation has the name of something that every module binds.
-/
import NoteCheck.Proofs.Signature.Characters
import NoteCheck.Proofs.Stub.Module
import NoteCheck.Proofs.Verification.Report
import Mathlib.Data.List.Nodup

namespace NoteCheck

namespace Stub

open Code Signature

variable {operations : List Operation} {names : List String} {operation : Operation}

/-! ## Names on a line -/

/-- The names that a line binds: those that it imports, or that of the function or the variable at
its beginning. A line that is indented or empty binds none. -/
def boundIn (line : List Char) : List String :=
  match "from typing import ".toList.isPrefixOf? line with
  | some names => (Text.identifiers names).map String.ofList
  | none =>
    match "def ".toList.isPrefixOf? line with
    | some rest => [String.ofList (rest.takeWhile Text.isIdentifierChar)]
    | none =>
      let name := line.takeWhile Text.isIdentifierChar
      if name.isEmpty then [] else [String.ofList name]

/-- A line that begins with a word and a blank begins with no other word and a blank. -/
theorem isPrefixOf?_eq_none {word name : String} (rest more : List Char) (hne : name ≠ word)
    (hword : ∀ c ∈ word.toList, Text.isIdentifierChar c = true)
    (hname : ∀ c ∈ name.toList, Text.isIdentifierChar c = true) :
    (word.toList ++ ' ' :: more).isPrefixOf? (name.toList ++ ' ' :: rest) = none := by
  rw [Option.eq_none_iff_forall_ne_some]
  intro tail htail
  have hline := Text.append_of_isPrefixOf? htail
  rw [List.append_assoc, List.cons_append] at hline
  have hsame :=
    (eq_of_append_cons_eq hword hname (c := ' ') (d := ' ') (by decide) (by decide) hline).1
  exact hne (String.toList_inj.1 hsame.symm)

theorem takeWhile_identifier {name : List Char} {c : Char} (rest : List Char)
    (hname : ∀ c ∈ name, Text.isIdentifierChar c = true) (hc : Text.isIdentifierChar c = false) :
    (name ++ c :: rest).takeWhile Text.isIdentifierChar = name := by
  rw [List.takeWhile_append_of_pos hname, List.takeWhile_cons_of_neg (by rw [hc]; decide),
    List.append_nil]

/-- An assignment binds the name at its beginning. -/
theorem boundIn_assignment {name : String} (hname : Text.isIdentifier name.toList = true)
    (hfrom : name ≠ "from") (hdef : name ≠ "def") (rest : List Char) :
    boundIn (name.toList ++ ' ' :: rest) = [name] := by
  obtain ⟨hchars, hne, -⟩ := Text.isIdentifier_iff.1 hname
  have himport := isPrefixOf?_eq_none rest "typing import ".toList hfrom
    (List.all_eq_true.1 (by decide)) hchars
  have hfunction := isPrefixOf?_eq_none rest [] hdef (List.all_eq_true.1 (by decide)) hchars
  have hempty : name.toList.isEmpty = false := by simpa using hne
  rw [boundIn, show "from typing import ".toList = "from".toList ++ ' ' :: "typing import ".toList
    from rfl, himport, show "def ".toList = "def".toList ++ [' '] from rfl, hfunction]
  dsimp only
  rw [takeWhile_identifier rest hchars (by decide), hempty, String.ofList_toList]
  rfl

/-- The head of a function binds its name. -/
theorem boundIn_function {name : String} (hname : Text.isIdentifier name.toList = true)
    (rest : List Char) : boundIn ("def ".toList ++ (name.toList ++ '(' :: rest)) = [name] := by
  have himport : "from typing import ".toList.isPrefixOf?
      ("def ".toList ++ (name.toList ++ '(' :: rest)) = none := rfl
  have hfunction : "def ".toList.isPrefixOf? ("def ".toList ++ (name.toList ++ '(' :: rest)) =
      some (name.toList ++ '(' :: rest) := rfl
  rw [boundIn, himport, hfunction]
  dsimp only
  rw [takeWhile_identifier rest (Text.isIdentifier_iff.1 hname).1 (by decide), String.ofList_toList]

/-! ## Names in a module -/

/-- The names that a module binds, from the first line on. -/
def boundNames (operations : List Operation) (names : List String) : List String :=
  importedNames ++ (aliases operations names).map Prod.fst ++ ["T", "U", foldName] ++
    operations.map Operation.name

/-- The names that every module binds. -/
def fixedNames : List String := importedNames ++ ["T", "U", foldName]

/-- An alias stands for one of the names that are not reserved, and no operation has its name. -/
theorem mem_aliases {bound : String × String} (h : bound ∈ aliases operations names) :
    bound.1 ∈ names ∧ bound.1 ∉ operations.map Operation.name ∧ bound.1 ≠ foldName ∧
      bound.1 ∉ reservedNames ∧ aliasFor bound.1 = some bound.2 := by
  obtain ⟨name, hname, halias⟩ := List.mem_filterMap.1 h
  obtain ⟨target, htarget, rfl⟩ := Option.map_eq_some_iff.1 halias
  obtain ⟨hname, hfree⟩ := List.mem_filter.1 hname
  rw [Bool.and_eq_true, Bool.not_eq_true', bne_iff_ne, List.contains_eq_mem,
    decide_eq_false_iff_not] at hfree
  refine ⟨hname, hfree.1, hfree.2, fun hreserved => ?_, htarget⟩
  rw [aliasFor, if_pos (List.contains_iff_mem.2 hreserved)] at htarget
  cases htarget

theorem nodup_aliases (h : names.Nodup) : ((aliases operations names).map Prod.fst).Nodup := by
  have hsublist : ((aliases operations names).map Prod.fst).Sublist names := by
    have hkept : ∀ l : List String, ((l.filterMap fun name =>
        (aliasFor name).map (name, ·)).map Prod.fst).Sublist l := by
      intro l
      induction l with
      | nil => exact .slnil
      | cons name l ih =>
        cases halias : aliasFor name with
        | none =>
          rw [List.filterMap_cons_none (by rw [halias]; rfl)]
          exact ih.cons name
        | some target =>
          rw [List.filterMap_cons_some (b := (name, target)) (by rw [halias]; rfl)]
          exact ih.cons_cons name
    exact (hkept _).trans List.filter_sublist
  exact h.sublist hsublist

/-- No name is bound twice just if no operation has a name that every module binds. -/
theorem nodup_boundNames_iff (hoperations : (operations.map Operation.name).Nodup)
    (hnames : names.Nodup) :
    (boundNames operations names).Nodup ↔ ∀ o ∈ operations, o.name ∉ fixedNames := by
  have hfixed : ∀ name ∈ fixedNames, name = foldName ∨ name ∈ reservedNames := by
    decide
  -- aliases are kept apart from the fixed names and from the operations as they are made
  have halias : ∀ name ∈ (aliases operations names).map Prod.fst,
      name ∉ fixedNames ∧ name ∉ operations.map Operation.name := by
    rw [List.forall_mem_map]
    intro bound hbound
    obtain ⟨-, hfree, hfold, hnot, -⟩ := mem_aliases hbound
    refine ⟨fun hmem => ?_, hfree⟩
    obtain hname | hname := hfixed _ hmem
    · exact hfold hname
    · exact hnot hname
  have hperm : (boundNames operations names).Perm
      (fixedNames ++
        ((aliases operations names).map Prod.fst ++ operations.map Operation.name)) := by
    rw [boundNames, fixedNames]
    simp only [List.append_assoc]
    refine List.Perm.append_left _ ?_
    rw [← List.append_assoc, ← List.append_assoc]
    exact List.perm_append_comm.append_right _
  rw [hperm.nodup_iff, List.nodup_append', List.nodup_append']
  constructor
  · rintro ⟨-, -, hdisjoint⟩ o ho hmem
    exact hdisjoint hmem (List.mem_append_right _ (List.mem_map_of_mem ho))
  · intro hfree
    refine ⟨by decide, ⟨nodup_aliases hnames, hoperations, ?_⟩, ?_⟩
    · exact fun name hname hmem => (halias name hname).2 hmem
    · intro name hname hmem
      obtain hmem | hmem := List.mem_append.1 hmem
      · exact (halias name hmem).1 hname
      · obtain ⟨o, ho, rfl⟩ := List.mem_map.1 hmem
        exact hfree o ho hname

/-! ## Names on the lines of a module -/

/-- An operation has two empty lines before its head, and a body of one line. -/
theorem operationRows_eq (operation : Operation) : operationRows operation =
    [.blank 0, .blank 0, .words 0 (headText operation), .words 4 Head.raising] := rfl

/-- What is not indented begins with its text. -/
theorem chars_words_zero (text : String) : (Row.words 0 text).chars = text.toList := rfl

theorem boundIn_header : boundIn header.toList = importedNames := by decide +kernel

/-- A line that is empty binds no name. -/
theorem boundIn_blank : boundIn (Row.blank 0).chars = [] := rfl

/-- The body of a function binds no name, since it is indented. -/
theorem boundIn_raising : boundIn (Row.words 4 Head.raising).chars = [] := rfl

theorem flatMap_boundIn_aliasRows (hnames : ∀ name ∈ names, Text.isIdentifier name.toList = true) :
    ((aliasRows (aliases operations names)).map Row.chars).flatMap boundIn =
      (aliases operations names).map Prod.fst := by
  have hline : ∀ bound ∈ aliases operations names,
      boundIn (Row.words 0 s!"{bound.1} = {bound.2}").chars = [bound.1] := by
    intro bound hbound
    obtain ⟨hname, -, -, hreserved, -⟩ := mem_aliases hbound
    have hassigned := boundIn_assignment (hnames _ hname)
      (fun heq => hreserved (heq ▸ by decide)) (fun heq => hreserved (heq ▸ by decide))
      ('=' :: ' ' :: bound.2.toList)
    rw [← hassigned]
    simp [Row.chars, ToString.toString]
  rw [aliasRows]
  split
  · rename_i hempty
    rw [List.isEmpty_iff.1 hempty]
    rfl
  · rw [List.map_append, List.flatMap_append, List.map_map, List.flatMap_map, List.map_singleton,
      List.flatMap_singleton, boundIn_blank, List.append_nil]
    exact (List.flatMap_congr hline).trans (List.flatMap_pure_eq_map _ _)

theorem flatMap_boundIn_operationRows (h : Text.isIdentifier operation.name.toList = true) :
    ((operationRows operation).map Row.chars).flatMap boundIn = [operation.name] := by
  obtain ⟨rest, hrest⟩ : ∃ rest, (headText operation).toList =
      "def ".toList ++ (operation.name.toList ++ '(' :: rest) := by
    rw [headText]
    simp only [String.toList_append, ToString.toString, List.append_assoc]
    exact ⟨_, rfl⟩
  simp only [operationRows_eq, List.map_cons, List.map_nil, List.flatMap_cons, List.flatMap_nil,
    boundIn_blank, boundIn_raising, chars_words_zero, hrest, boundIn_function h, List.nil_append,
    List.append_nil]

/-- What is read of the lines of a module is what it binds. -/
theorem flatMap_boundIn_rows (hoperations : ∀ o ∈ operations, o.IsShown)
    (hnames : ∀ name ∈ names, Text.isIdentifier name.toList = true) :
    ((rows operations names).map Row.chars).flatMap boundIn = boundNames operations names := by
  have hhelpers : (helperRows.map Row.chars).flatMap boundIn = ["T", "U", foldName] := by
    decide +kernel
  have hdeclared : ((operations.flatMap operationRows).map Row.chars).flatMap boundIn =
      operations.map Operation.name := by
    have hline : ∀ o ∈ operations,
        ((operationRows o).map Row.chars).flatMap boundIn = pure o.name :=
      fun o ho => flatMap_boundIn_operationRows (hoperations o ho).name
    rw [List.map_flatMap, List.flatMap_assoc, List.flatMap_congr hline]
    exact List.flatMap_pure_eq_map _ _
  have hfirst : ([Row.words 0 header, .blank 0].map Row.chars).flatMap boundIn = importedNames := by
    rw [List.map_cons, List.flatMap_cons, chars_words_zero, boundIn_header, List.map_singleton,
      List.flatMap_singleton, boundIn_blank, List.append_nil]
  have hlast : ([Row.blank 0, .blank 0].map Row.chars).flatMap boundIn = [] := by
    rw [List.map_cons, List.flatMap_cons, List.map_singleton, List.flatMap_singleton,
      boundIn_blank, List.append_nil]
  simp only [rows, List.map_append, List.flatMap_append, hfirst, hlast, hhelpers, hdeclared,
    flatMap_boundIn_aliasRows hnames, List.append_nil]
  rw [boundNames]

/-! ## Lines without line breaks -/

/-- The type for which an alias stands is told on one line. -/
theorem lineBreak_notMem_of_aliasFor {name target : String} (h : aliasFor name = some target) :
    '\n' ∉ target.toList := by
  rw [aliasFor] at h
  split at h
  · cases h
  split at h
  · rename_i found hlookup
    obtain rfl := Option.some.inj h
    obtain ⟨before, after, hmem, -⟩ := List.lookup_eq_some_iff.1 hlookup
    have htargets : ∀ m ∈ domainAliases, '\n' ∉ m.2.toList := by decide
    exact htargets (name, found) (by rw [hmem]; simp)
  split at h
  · rename_i p _
    split at h
    · cases h
    · obtain rfl := Option.some.inj h
      cases p <;> decide
  · split at h
    · obtain rfl := Option.some.inj h
      decide
    · cases h

theorem lineBreak_notMem_of_isIdentifier {name : List Char} (h : Text.isIdentifier name = true) :
    '\n' ∉ name := fun hmem =>
  TypeExpr.ne_of_isIdentifierChar (d := '\n') (by decide) ((Text.isIdentifier_iff.1 h).1 _ hmem) rfl

theorem lineBreak_notMem_headText (h : operation.IsShown) : '\n' ∉ (headText operation).toList := by
  have htypes := List.forall_mem_append.1 h.types
  have hparameters : ∀ c ∈ [',', ' '].intercalate ((operation.parameters.mapIdx fun i type =>
      s!"arg{i}: {type.render}").map String.toList), c ≠ '\n' := by
    refine TypeExpr.forall_mem_intercalate (List.all_iff_forall_prop.1 (by decide)) ?_
    rw [List.forall_mem_map]
    intro text htext
    obtain ⟨i, hi, rfl⟩ := List.mem_mapIdx.1 htext
    have hargument := lineBreak_notMem_of_isIdentifier (isName_argument i).isIdentifier
    have htype := htypes.1 _ (List.getElem_mem hi)
    rintro c hc rfl
    simp [ToString.toString] at hc hargument htype
    tauto
  have hname := lineBreak_notMem_of_isIdentifier h.name
  have hresult := List.forall_mem_singleton.1 htypes.2
  intro hmem
  rw [headText] at hmem
  simp [ToString.toString, String.toList_intercalate, hname, hresult] at hmem
  exact hparameters _ hmem rfl

/-- The lines of a module before its code are lines. -/
theorem lineBreak_notMem_rows (hoperations : ∀ o ∈ operations, o.IsShown)
    (hnames : ∀ name ∈ names, Text.isIdentifier name.toList = true) :
    ∀ line ∈ (rows operations names).map Row.chars, '\n' ∉ line := by
  have hblank : '\n' ∉ (Row.blank 0).chars := List.not_mem_nil
  have hraising : '\n' ∉ (Row.words 4 Head.raising).chars := by decide
  have hheader : '\n' ∉ (Row.words 0 header).chars := by decide +kernel
  have hhelpers : ∀ row ∈ helperRows, '\n' ∉ row.chars := by decide +kernel
  have haliases : ∀ row ∈ aliasRows (aliases operations names), '\n' ∉ row.chars := by
    rw [aliasRows]
    split
    · exact List.forall_mem_nil _
    · refine List.forall_mem_append.2 ⟨?_, List.forall_mem_singleton.2 hblank⟩
      rw [List.forall_mem_map]
      intro bound hbound
      obtain ⟨hname, -, -, -, htarget⟩ := mem_aliases hbound
      have hname := lineBreak_notMem_of_isIdentifier (hnames _ hname)
      have htarget := lineBreak_notMem_of_aliasFor htarget
      simp [Row.chars, ToString.toString, hname, htarget]
  have hdeclared : ∀ row ∈ operations.flatMap operationRows, '\n' ∉ row.chars := by
    intro row hrow
    obtain ⟨o, ho, hrow⟩ := List.mem_flatMap.1 hrow
    have hall : ∀ row ∈ operationRows o, '\n' ∉ row.chars := by
      rw [operationRows_eq]
      refine List.forall_mem_cons.2 ⟨hblank, List.forall_mem_cons.2 ⟨hblank,
        List.forall_mem_cons.2 ⟨?_, List.forall_mem_singleton.2 hraising⟩⟩⟩
      rw [chars_words_zero]
      exact lineBreak_notMem_headText (hoperations o ho)
    exact hall row hrow
  rw [List.forall_mem_map, rows]
  simp only [List.forall_mem_append, List.forall_mem_cons]
  exact ⟨⟨⟨⟨⟨hheader, hblank, List.forall_mem_nil _⟩, haliases⟩, hhelpers⟩, hdeclared⟩, hblank,
    hblank, List.forall_mem_nil _⟩

end Stub

namespace Note

/-- The names that occur in a block are identifiers. -/
theorem isIdentifier_of_mem_identifiers {text heading name : String}
    (h : name ∈ (extractBlock text heading).identifiers) :
    Text.isIdentifier name.toList = true := by
  rw [extractBlock] at h
  split at h
  · rename_i body _
    rw [Block.ofLines] at h
    split at h
    · cases h
    · obtain hname | hname := ((Sorted.foldl_insert .nil _).2 name).1 h
      · obtain ⟨word, hword, rfl⟩ := List.mem_map.1 hname
        rw [String.toList_ofList]
        exact (Text.mem_identifiers_iff.1 hword).1
      · cases hname
  · cases h

end Note

namespace Verification

open Code Files Note Signature Stub

variable {config : Config} {path : Path} {text module : String}

/-- In a stub module no name is bound twice before the code just if no operation of the note has the
name of something that every module binds. -/
theorem nodup_boundIn_iff (h : (inspect config path text).stub = some module) :
    let operations := (readDeclarations text config.signatureMarker).operations
    ∃ lines names,
      module.toList = Text.unlines lines ++ (extractBlock text config.lambdaHeading).code.toList ∧
      (∀ line ∈ lines, '\n' ∉ line) ∧ lines.flatMap boundIn = boundNames operations names ∧
      ((lines.flatMap boundIn).Nodup ↔ ∀ o ∈ operations, o.name ∉ fixedNames) := by
  intro operations
  by_cases happlicable : Applicable config text
  · rw [(inspect_of_applicable happlicable).1, Option.some.injEq] at h
    have hdeclared : Sorted.Increasing id (readDeclarations text config.signatureMarker).names :=
      Declarations.increasing_names
    obtain ⟨hsorted, hmem⟩ :=
      Sorted.foldl_insert hdeclared (extractBlock text config.lambdaHeading).identifiers
    rw [stubOf] at h
    -- the names are those of the code put among the declared ones, so that they are sorted
    generalize (extractBlock text config.lambdaHeading).identifiers.foldl
      (fun names name => Sorted.insert name names) _ = names at h hsorted hmem
    have hnames : ∀ name ∈ names, Text.isIdentifier name.toList = true := by
      intro name hname
      obtain hname | hname := (hmem name).1 hname
      · exact isIdentifier_of_mem_identifiers hname
      · exact Declarations.isIdentifier_of_mem_names hname
    have hoperations : ∀ o ∈ operations, o.IsShown :=
      fun o ho => Declarations.isShown_of_mem_operations ho
    have hnodup : names.Nodup := by
      have hkeys := hsorted.nodup
      rwa [List.map_id] at hkeys
    have hbound := flatMap_boundIn_rows hoperations hnames
    refine ⟨(rows operations names).map Row.chars, names, ?_,
      lineBreak_notMem_rows hoperations hnames, hbound, ?_⟩
    · rw [← h, toList_render, ended, if_pos (extractBlock_getLast? happlicable.block),
        Row.unlines, Text.unlines, List.flatMap_map]
    · rw [hbound]
      exact nodup_boundNames_iff Declarations.nodup_operations hnodup
  · rw [(inspect_of_not_applicable happlicable).1] at h
    cases h

/-- A note with an operation, a type that is named and a function. -/
theorem nodup_boundIn_of_paint :
    let text := "## DSL Operations\n`paint: Grid -> Grid`\n## Lambda Representation\n" ++
      "```\ndef f(x):\n    return paint(x)\n```\n"
    ∃ module lines, (inspect {} "notes.md" text).stub = some module ∧
      module.toList = Text.unlines lines ++ "def f(x):\n    return paint(x)\n".toList ∧
      (∀ line ∈ lines, '\n' ∉ line) ∧ (lines.flatMap boundIn).Nodup := by
  intro text
  obtain ⟨module, hmodule⟩ : ∃ module, (inspect {} "notes.md" text).stub = some module :=
    Option.isSome_iff_exists.1 (by decide +kernel)
  obtain ⟨lines, names, htext, hlines, -, hiff⟩ := nodup_boundIn_iff hmodule
  have hcode : (extractBlock text "## Lambda Representation").code =
      "def f(x):\n    return paint(x)\n" := by decide +kernel
  have hfree : ∀ o ∈ (readDeclarations text "## DSL Operations").operations,
      o.name ∉ fixedNames := by decide +kernel
  exact ⟨module, lines, hmodule, hcode ▸ htext, hlines, hiff.2 hfree⟩

/-- A note may declare an operation with the name of the function that folds. -/
theorem not_nodup_boundIn_of_fold :
    let text := "## DSL Operations\n`fold_repaint: int -> int`\n## Lambda Representation\n" ++
      "```\ndef f(x):\n    return x\n```\n"
    ∃ module lines, (inspect {} "notes.md" text).stub = some module ∧
      module.toList = Text.unlines lines ++ "def f(x):\n    return x\n".toList ∧
      (∀ line ∈ lines, '\n' ∉ line) ∧ ¬(lines.flatMap boundIn).Nodup := by
  intro text
  let operation : Operation := ⟨foldName, [.primitive .int], .primitive .int⟩
  let names := ["def", "f", "return", "x"]
  refine ⟨render [operation] names "def f(x):\n    return x\n",
    (rows [operation] names).map Row.chars, by decide +kernel, ?_, by decide +kernel,
    by decide +kernel⟩
  have hended : ("def f(x):\n    return x\n" : String).toList.getLast? = some '\n' := rfl
  rw [toList_render, ended, if_pos hended, Row.unlines, Text.unlines, List.flatMap_map]

end Verification

end NoteCheck
