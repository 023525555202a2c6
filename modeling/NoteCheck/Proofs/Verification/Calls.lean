/-
# Calls of the checker

A run with a checker that writes down what it is called for. It is called for the batch that
passes the gate, and otherwise for nothing.
-/
import NoteCheck.Proofs.Verification.Gate

namespace NoteCheck.Verification

open Files

/-- A checker that answers like an oracle and writes down the batch for which it is called. -/
def recording (oracle : Batch → Except RunError Outcome) (batch : Batch) :
    StateM (List Batch) (Except RunError Outcome) := do
  modify (· ++ [batch])
  return oracle batch

/-- The batches for which a run calls a checker, from the first on. -/
def calls (oracle : Batch → Except RunError Outcome) (walk : Walk) (tree : Tree)
    (config : Config) (paths : List Path) : List Batch :=
  (StateT.run (run (recording oracle) walk tree config paths) []).2

variable {oracle : Batch → Except RunError Outcome} {walk : Walk} {tree : Tree}
  {config : Config} {paths : List Path}

/-- What a run comes to, and what it calls the checker for. -/
theorem run_recording :
    StateT.run (run (recording oracle) walk tree config paths) [] =
      match gate walk tree config paths with
      | .error e => (.error e, [])
      | .ok (.rejected violations) => (.ok (.rejected violations), [])
      | .ok (.passed batch) => ((oracle batch).map (.checked batch.length), [batch]) := by
  rw [run]
  cases gate walk tree config paths with
  | error e => rfl
  | ok decision =>
    cases decision with
    | rejected violations => rfl
    | passed batch =>
      have hcalled : StateT.run (recording oracle batch) [] = (oracle batch, [batch]) := rfl
      dsimp only
      rw [StateT.run_bind, hcalled]
      cases oracle batch with
      | error e => rfl
      | ok outcome => rfl

theorem calls_eq_singleton_iff {batch : Batch} :
    calls oracle walk tree config paths = [batch] ↔
      gate walk tree config paths = .ok (.passed batch) := by
  rw [calls, run_recording]
  split
  · rename_i e h
    rw [h]
    exact iff_of_false nofun nofun
  · rename_i violations h
    rw [h]
    exact iff_of_false nofun nofun
  · rename_i passed h
    rw [h]
    show [passed] = [batch] ↔ _
    rw [List.singleton_inj, Except.ok.injEq, Gate.passed.injEq]

variable (oracle walk tree config paths) in
/-- A run calls the checker once or not at all. -/
theorem calls_eq_nil_or_singleton :
    calls oracle walk tree config paths = [] ∨
      ∃ batch, calls oracle walk tree config paths = [batch] := by
  rw [calls, run_recording]
  split
  · exact .inl rfl
  · exact .inl rfl
  · exact .inr ⟨_, rfl⟩

theorem length_calls_le_one : (calls oracle walk tree config paths).length ≤ 1 := by
  obtain h | ⟨batch, h⟩ := calls_eq_nil_or_singleton oracle walk tree config paths
  · rw [h]
    exact Nat.zero_le 1
  · rw [h]
    exact Nat.le_refl 1

/-- A run calls the checker exactly when the notes are ready for it. -/
theorem calls_ne_nil_iff_ready :
    calls oracle walk tree config paths ≠ [] ↔ Ready walk tree config paths := by
  rw [← exists_passed_iff_ready]
  constructor
  · intro hne
    obtain h | ⟨batch, h⟩ := calls_eq_nil_or_singleton oracle walk tree config paths
    · exact absurd h hne
    · exact ⟨batch, calls_eq_singleton_iff.1 h⟩
  · rintro ⟨batch, h⟩
    rw [calls_eq_singleton_iff.2 h]
    exact List.cons_ne_nil batch []

/-- A batch for which a run calls the checker holds the applicable notes. -/
theorem represents_of_mem_calls {batch : Batch} (hb : batch ∈ calls oracle walk tree config paths) :
    Represents batch walk tree config paths := by
  obtain h | ⟨passed, h⟩ := calls_eq_nil_or_singleton oracle walk tree config paths
  · rw [h] at hb
    cases hb
  · rw [h] at hb
    obtain rfl := List.mem_singleton.1 hb
    exact represents_of_gate (calls_eq_singleton_iff.1 h)

end NoteCheck.Verification
