/-
# The status of the program

The program ends with status zero when it has only a notice to give, or when the checker was called
and its exit code was zero. No other exit code becomes zero.
-/
import NoteCheck.CommandLine.Arguments
import NoteCheck.CommandLine.Response
import NoteCheck.Proofs.Verification.Calls
import NoteCheck.Toml.Document

namespace NoteCheck.CommandLine

open Files Verification

theorem status_eq_zero_iff {exitCode : Int} : status exitCode = 0 ↔ exitCode = 0 := by
  rw [status]
  by_cases h : 0 ≤ exitCode ∧ exitCode ≤ 255
  · rw [if_pos h]
    omega
  · rw [if_neg h]
    omega

/-- What the program answers with a checker that answers like an oracle, and the batches for which
the checker is called. -/
def answer (oracle : CheckerConfig → Batch → Except RunError Outcome) (tools : Tools) (tree : Tree)
    (arguments : List String) : Response × List Batch :=
  StateT.run (respond tools (fun checker => recording (oracle checker)) tree arguments) []

variable {oracle : CheckerConfig → Batch → Except RunError Outcome} {tools : Tools} {tree : Tree}
  {arguments : List String} {request : Request} {config : Config}

theorem answer_of_notice {notice : Notice} (h : tools.readArguments arguments = .error notice) :
    answer oracle tools tree arguments = (.notice notice, []) := by
  rw [answer, respond, h]
  rfl

theorem answer_of_config_error {e : ConfigError}
    (hrequest : tools.readArguments arguments = .ok request)
    (h : Config.load tools.readDocument? tree request.config = .error e) :
    answer oracle tools tree arguments = (.failed (.config e), []) := by
  rw [answer, respond, hrequest]
  dsimp only
  rw [h]
  rfl

/-- With a configuration, the program runs and answers what the run comes to. -/
theorem answer_of_config (hrequest : tools.readArguments arguments = .ok request)
    (hconfig : Config.load tools.readDocument? tree request.config = .ok config) :
    answer oracle tools tree arguments =
      match gate tools.walk tree (request.configure config) request.paths with
      | .error e => (.failed (.run e), [])
      | .ok (.rejected violations) => (.decided (.rejected violations), [])
      | .ok (.passed batch) =>
        (match oracle (request.configure config).checker batch with
          | .error e => .failed (.run e)
          | .ok outcome => .decided (.checked batch.length outcome), [batch]) := by
  rw [answer, respond, hrequest]
  dsimp only
  rw [hconfig]
  dsimp only
  rw [StateT.run_bind, run_recording]
  cases gate tools.walk tree (request.configure config) request.paths with
  | error e => rfl
  | ok decision =>
    cases decision with
    | rejected violations => rfl
    | passed batch =>
      dsimp only
      cases oracle (request.configure config).checker batch with
      | error e => rfl
      | ok outcome => rfl

/-- The checker has no say in what passes. -/
theorem gate_configure {walk : Walk} {paths : List Path} (request : Request) (config : Config) :
    gate walk tree (request.configure config) paths = gate walk tree config paths := rfl

theorem called_eq_singleton_iff {batch : Batch}
    (hrequest : tools.readArguments arguments = .ok request)
    (hconfig : Config.load tools.readDocument? tree request.config = .ok config) :
    (answer oracle tools tree arguments).2 = [batch] ↔
      gate tools.walk tree (request.configure config) request.paths = .ok (.passed batch) := by
  rw [answer_of_config hrequest hconfig]
  cases gate tools.walk tree (request.configure config) request.paths with
  | error e => exact iff_of_false nofun nofun
  | ok decision =>
    cases decision with
    | rejected violations => exact iff_of_false nofun nofun
    | passed passed =>
      show [passed] = [batch] ↔ _
      rw [List.singleton_inj, Except.ok.injEq, Gate.passed.injEq]

/-- With a configuration, the status is zero exactly when the checker is called for a batch and its
exit code is zero. -/
theorem exitStatus_of_config_eq_zero_iff (hrequest : tools.readArguments arguments = .ok request)
    (hconfig : Config.load tools.readDocument? tree request.config = .ok config) :
    (answer oracle tools tree arguments).1.exitStatus = 0 ↔
      ∃ batch outcome, (answer oracle tools tree arguments).2 = [batch] ∧
        oracle (request.configure config).checker batch = .ok outcome ∧ outcome.exitCode = 0 := by
  rw [answer_of_config hrequest hconfig]
  -- only notes that pass have the checker called
  cases gate tools.walk tree (request.configure config) request.paths with
  | error e => exact iff_of_false (Nat.succ_ne_zero 0) nofun
  | ok decision =>
    cases decision with
    | rejected violations => exact iff_of_false (Nat.succ_ne_zero 0) nofun
    | passed batch =>
      dsimp only
      simp only [List.singleton_inj]
      cases hanswer : oracle (request.configure config).checker batch with
      | error e =>
        refine iff_of_false (Nat.succ_ne_zero 0) ?_
        rintro ⟨_, outcome, rfl, h, -⟩
        rw [hanswer] at h
        cases h
      | ok outcome =>
        show status outcome.exitCode = 0 ↔ _
        rw [status_eq_zero_iff]
        constructor
        · intro hzero
          exact ⟨batch, outcome, rfl, hanswer, hzero⟩
        · rintro ⟨_, _, rfl, h, hzero⟩
          rw [hanswer] at h
          cases h
          exact hzero

/-- The checker is called as the arguments and the configuration say, and its exit code is zero. -/
structure Approved (oracle : CheckerConfig → Batch → Except RunError Outcome) (tools : Tools)
    (tree : Tree) (arguments : List String) (request : Request) (config : Config) (batch : Batch)
    (outcome : Outcome) : Prop where
  asked : tools.readArguments arguments = .ok request
  loaded : Config.load tools.readDocument? tree request.config = .ok config
  ready : Ready tools.walk tree (request.configure config) request.paths
  called : (answer oracle tools tree arguments).2 = [batch]
  represents : Represents batch tools.walk tree (request.configure config) request.paths
  answered : oracle (request.configure config).checker batch = .ok outcome
  success : outcome.exitCode = 0

theorem exitStatus_of_config_eq_zero_iff_approved
    (hrequest : tools.readArguments arguments = .ok request)
    (hconfig : Config.load tools.readDocument? tree request.config = .ok config) :
    (answer oracle tools tree arguments).1.exitStatus = 0 ↔
      ∃ batch outcome, Approved oracle tools tree arguments request config batch outcome := by
  rw [exitStatus_of_config_eq_zero_iff hrequest hconfig]
  constructor
  · rintro ⟨batch, outcome, hcalled, houtcome, hzero⟩
    have hpassed := (called_eq_singleton_iff hrequest hconfig).1 hcalled
    exact ⟨batch, outcome, hrequest, hconfig, exists_passed_iff_ready.1 ⟨batch, hpassed⟩, hcalled,
      represents_of_gate hpassed, houtcome, hzero⟩
  · rintro ⟨batch, outcome, h⟩
    exact ⟨batch, outcome, h.called, h.answered, h.success⟩

/-- The status is zero exactly when there is only a notice to give or the notes are approved. -/
theorem exitStatus_eq_zero_iff :
    (answer oracle tools tree arguments).1.exitStatus = 0 ↔
      tools.readArguments arguments = .error .help ∨
      tools.readArguments arguments = .error .version ∨
      ∃ request config batch outcome,
        Approved oracle tools tree arguments request config batch outcome := by
  -- the program stops at the first of its stages that fails, and an approval passes all of them
  cases hrequest : tools.readArguments arguments with
  | error notice =>
    rw [answer_of_notice hrequest]
    cases notice with
    | help => exact iff_of_true rfl (.inl rfl)
    | version => exact iff_of_true rfl (.inr (.inl rfl))
    | misuse =>
      refine iff_of_false (Nat.succ_ne_zero 1) ?_
      rintro (h | h | ⟨_, _, _, _, h⟩)
      · cases h
      · cases h
      · cases hrequest.symm.trans h.asked
  | ok request =>
    rw [or_iff_right nofun, or_iff_right nofun]
    cases hconfig : Config.load tools.readDocument? tree request.config with
    | error e =>
      rw [answer_of_config_error hrequest hconfig]
      refine iff_of_false (Nat.succ_ne_zero 0) ?_
      rintro ⟨_, _, _, _, h⟩
      cases hrequest.symm.trans h.asked
      cases hconfig.symm.trans h.loaded
    | ok config =>
      rw [exitStatus_of_config_eq_zero_iff_approved hrequest hconfig]
      constructor
      · rintro ⟨batch, outcome, h⟩
        exact ⟨request, config, batch, outcome, h⟩
      · rintro ⟨_, _, batch, outcome, h⟩
        cases hrequest.symm.trans h.asked
        cases hconfig.symm.trans h.loaded
        exact ⟨batch, outcome, h⟩

/-- The checker is called at most once, exactly when the notes are ready for it, and for a batch
that represents them. The program ends with status zero exactly when it has only a notice to give,
or when it calls the checker in this way and the exit code is zero. -/
theorem calls_iff_ready_and_exitStatus_eq_zero_iff
    (oracle : CheckerConfig → Batch → Except RunError Outcome) (tools : Tools) (tree : Tree) :
    (∀ config paths,
      (calls (oracle config.checker) tools.walk tree config paths).length ≤ 1 ∧
      (calls (oracle config.checker) tools.walk tree config paths ≠ [] ↔
        Ready tools.walk tree config paths) ∧
      ∀ batch ∈ calls (oracle config.checker) tools.walk tree config paths,
        Represents batch tools.walk tree config paths) ∧
    ∀ arguments,
      (answer oracle tools tree arguments).1.exitStatus = 0 ↔
        tools.readArguments arguments = .error .help ∨
        tools.readArguments arguments = .error .version ∨
        ∃ request config batch outcome,
          Approved oracle tools tree arguments request config batch outcome := by
  constructor
  · intro config paths
    refine ⟨length_calls_le_one, calls_ne_nil_iff_ready, ?_⟩
    intro batch hb
    exact represents_of_mem_calls hb
  · intro arguments
    exact exitStatus_eq_zero_iff

/-- A note passes, the checker is called for it with the program that the arguments name, and its
exit code is zero. -/
theorem calls_iff_ready_and_exitStatus_eq_zero_iff_oneNote :
    let tools : Tools := ⟨Request.ofArguments, Toml.readDocument?, oneNote.walk⟩
    let oracle := fun (checker : CheckerConfig) (_ : Batch) =>
      (.ok ⟨if checker.program = "pyright" then 0 else 1, ""⟩ : Except RunError Outcome)
    let arguments := ["docs", "--checker=pyright", "docs//notes.md"]
    (answer oracle tools oneNote arguments).1.exitStatus = 0 ∧
      (answer oracle tools oneNote arguments).2 =
        [[⟨"docs/notes.md", stubOf {} cleanNote⟩]] ∧
      (∃ request config batch outcome,
        Approved oracle tools oneNote arguments request config batch outcome) ∧
      Ready tools.walk oneNote {} ["docs", "docs//notes.md"] := by
  intro tools oracle arguments
  let request : Request := { paths := ["docs", "docs//notes.md"], checker := some "pyright" }
  have hrequest : tools.readArguments arguments = .ok request := by
    decide +kernel
  have hconfig : Config.load tools.readDocument? oneNote request.config = .ok {} := by
    decide +kernel
  -- the arguments change the checker only, on which the gate does not depend
  have hgate : gate tools.walk oneNote (request.configure {}) request.paths =
      .ok (.passed [⟨"docs/notes.md", stubOf {} cleanNote⟩]) :=
    (gate_configure request {}).trans gate_oneNote.1
  have hanswer : answer oracle tools oneNote arguments =
      (.decided (.checked 1 ⟨0, ""⟩), [[⟨"docs/notes.md", stubOf {} cleanNote⟩]]) := by
    rw [answer_of_config hrequest hconfig, hgate]
    rfl
  have hstatus : (answer oracle tools oneNote arguments).1.exitStatus = 0 := by
    rw [hanswer]
    rfl
  obtain ⟨hcalls, hexit⟩ := calls_iff_ready_and_exitStatus_eq_zero_iff oracle tools oneNote
  refine ⟨hstatus, congrArg Prod.snd hanswer, ?_, ?_⟩
  · have happroved := (hexit arguments).1 hstatus
    rw [hrequest] at happroved
    exact (happroved.resolve_left nofun).resolve_left nofun
  · refine (hcalls {} request.paths).2.1.1 ?_
    rw [calls_eq_singleton_iff.2 gate_oneNote.1]
    exact List.cons_ne_nil _ []

end NoteCheck.CommandLine
