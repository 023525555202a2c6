/-
# What a report says

A note is applicable when it declares operations and has a block. Exactly then its report comes
with a stub module, and exactly then the violations of the block are reported. The stub module
ends with the code of the block, as it stands in the note.
-/
import NoteCheck.Verification.Run
import Mathlib.Data.List.Induction
import Mathlib.Tactic.Common

namespace NoteCheck

/-- A block without code is empty, and else its last line is ended. -/
theorem Note.extractBlock_getLast? {text heading : String}
    (h : (extractBlock text heading).code ≠ "") :
    (extractBlock text heading).code.toList.getLast? = some '\n' := by
  rw [extractBlock] at h ⊢
  split at h
  · rename_i body _
    rw [Block.ofLines] at h ⊢
    split at h
    · exact absurd rfl h
    · rename_i hblank
      rw [if_neg hblank]
      induction body using List.reverseRecOn with
      | nil => exact absurd rfl hblank
      | append_singleton body line => simp
  · exact absurd rfl h

/-- A stub module for code whose last line is ended ends with the code. -/
theorem Stub.exists_render_eq {operations : List Signature.Operation} {names : List String}
    {code : String} (h : code.toList.getLast? = some '\n') :
    ∃ preamble, render operations names code = preamble ++ code := by
  have hended : ended code = code := if_pos h
  rw [render, hended]
  exact ⟨_, rfl⟩

namespace Verification

open Code Files Note Signature

/-- A note with operations and a block. -/
structure Applicable (config : Config) (text : String) : Prop where
  operations : (readDeclarations text config.signatureMarker).operations ≠ []
  block : (extractBlock text config.lambdaHeading).code ≠ ""

/-- The stub module of a note. -/
def stubOf (config : Config) (text : String) : String :=
  let declared := readDeclarations text config.signatureMarker
  let block := extractBlock text config.lambdaHeading
  Stub.render declared.operations
    (block.identifiers.foldl (fun names name => Sorted.insert name names) declared.names) block.code

variable {config : Config} {path : Path} {text : String}

theorem Applicable.exists_stubOf_eq (h : Applicable config text) :
    ∃ preamble, stubOf config text = preamble ++ (extractBlock text config.lambdaHeading).code :=
  Stub.exists_render_eq (extractBlock_getLast? h.block)

theorem Report.violations_of_found {stub : Option String} {found : List Violation} :
    Report.violations ⟨path, if found.isEmpty then .clean else .violations found, stub⟩ =
      found := by
  cases found with
  | nil => rfl
  | cons => rfl

/-- The report on an applicable note has its stub module and the violations of its block. -/
theorem inspect_of_applicable (h : Applicable config text) :
    (inspect config path text).stub = some (stubOf config text) ∧
      (inspect config path text).violations =
        violations (extractBlock text config.lambdaHeading).code path := by
  have hoperations : ¬(readDeclarations text config.signatureMarker).operations.isEmpty = true := by
    rw [List.isEmpty_iff]
    exact h.operations
  have hblock : ¬(extractBlock text config.lambdaHeading).isEmpty = true := by
    rw [Block.isEmpty, String.isEmpty_iff]
    exact h.block
  rw [inspect, if_neg hoperations, if_neg hblock]
  exact ⟨rfl, Report.violations_of_found⟩

/-- The report on any other note has neither. -/
theorem inspect_of_not_applicable (h : ¬Applicable config text) :
    (inspect config path text).stub = none ∧ (inspect config path text).violations = [] := by
  rw [inspect]
  split
  · exact ⟨rfl, rfl⟩
  · split
    · exact ⟨rfl, rfl⟩
    · rename_i hoperations hblock
      rw [List.isEmpty_iff] at hoperations
      rw [Block.isEmpty, String.isEmpty_iff] at hblock
      exact absurd ⟨hoperations, hblock⟩ h

theorem module?_inspect_eq_some_iff {m : Module} :
    (inspect config path text).module? = some m ↔
      Applicable config text ∧ m = ⟨path, stubOf config text⟩ := by
  have hpath : (inspect config path text).path = path := by
    rw [inspect]
    split
    · rfl
    · split
      · rfl
      · rfl
  rw [Report.module?, hpath]
  by_cases h : Applicable config text
  · rw [(inspect_of_applicable h).1, Option.map_some, Option.some.injEq]
    exact ⟨fun hm => ⟨h, hm.symm⟩, fun hm => hm.2.symm⟩
  · rw [(inspect_of_not_applicable h).1]
    exact iff_of_false nofun fun hm => h hm.1

theorem violations_inspect_eq_nil_iff :
    (inspect config path text).violations = [] ↔
      (Applicable config text →
        violations (extractBlock text config.lambdaHeading).code path = []) := by
  by_cases h : Applicable config text
  · rw [(inspect_of_applicable h).2]
    exact ⟨fun hfound _ => hfound, fun hfound => hfound h⟩
  · exact iff_of_true (inspect_of_not_applicable h).2 fun h' => absurd h' h

end Verification

end NoteCheck
