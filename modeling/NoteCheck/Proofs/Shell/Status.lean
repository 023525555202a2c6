/-
# Statuses of scripts

Every status in a script is a byte, from command to command, and so is the one with which the script
ends. The main statement, `exitStatus_of_check`: the program ends with the exit code of each checker
that it starts beside a tree.
-/
import NoteCheck.Checker.Program
import NoteCheck.CommandLine.Response
import NoteCheck.Proofs.Results
import NoteCheck.Proofs.Shell.ToolStatus
import NoteCheck.Shell.Launch

namespace NoteCheck.Shell

/-- The status with which a script ends early, if it says so, is a byte. -/
def Halt.IsByte : Halt → Prop
  | exit status => status < 256
  | _ => True

/-- What a script comes to: a result of some kind or an early end, and a state. All statuses are
bytes. -/
def Ends {α : Type} (good : α → Prop) : Except Halt α × State → Prop
  | (.ok a, state) => state.status < 256 ∧ good a
  | (.error halt, state) => state.status < 256 ∧ halt.IsByte

namespace Act

variable {α β : Type} {good : α → Prop} {good' : β → Prop} {act : Act α} {next : α → Act β}

/-- A script keeps its statuses bytes, and its results are of some kind. -/
def Gives (good : α → Prop) (act : Act α) : Prop :=
  ∀ state : State, state.status < 256 → Ends good ((ExceptT.run act).run state)

/-- A script keeps its statuses bytes. -/
def Keeps (act : Act α) : Prop := Gives (fun _ => True) act

/-! ## Steps -/

theorem gives_pure {a : α} (h : good a) : Gives good (pure a) := fun _ hstate => ⟨hstate, h⟩

/-- Commands come one after the other, the second with what the first one gives. -/
theorem Gives.bind (h : Gives good act) (hnext : ∀ a, good a → Gives good' (next a)) :
    Gives good' (act >>= next) := by
  intro state hstate
  have hact := h state hstate
  rw [ExceptT.run_bind, StateT.run_bind]
  rcases hrun : (ExceptT.run act).run state with ⟨result, after⟩
  rw [hrun] at hact
  cases result with
  | ok a => exact hnext a hact.2 after hact.1
  | error halt => exact hact

/-- The status that a script looks at is a byte. -/
theorem gives_get : Gives (fun state : State => state.status < 256) get :=
  fun _ hstate => ⟨hstate, hstate⟩

/-- Commands that keep the statuses bytes make scripts that do. -/
theorem composes : Composes @Keeps where
  pure _ := gives_pure trivial
  bind hact hnext := hact.bind fun a _ => hnext a

theorem keeps_set {state : State} (h : state.status < 256) : Keeps (set state) :=
  fun _ _ => ⟨h, trivial⟩

theorem keeps_modify {f : State → State}
    (h : ∀ state, state.status < 256 → (f state).status < 256) : Keeps (modify f) :=
  fun state hstate => ⟨h state hstate, trivial⟩

/-- A script may end early with a byte. -/
theorem gives_throw {halt : Halt} (h : halt.IsByte) : Gives good (throw halt) :=
  fun _ hstate => ⟨hstate, h⟩

/-- What follows an early end may rely on its status. -/
theorem gives_tryCatch {handle : Halt → Act α} (h : Gives good act)
    (hhandle : ∀ halt, halt.IsByte → Gives good (handle halt)) :
    Gives good (tryCatch act handle) := by
  intro state hstate
  have hact := h state hstate
  rw [ExceptT.run_tryCatch, StateT.run_bind]
  rcases hrun : (ExceptT.run act).run state with ⟨result, after⟩
  rw [hrun] at hact
  cases result with
  | ok a => exact hact
  | error halt => exact hhandle halt hact.2 after hact.1

/-- How commands end early, if they do, is known to have a byte as its status. -/
theorem gives_ending {act : Act Unit} (h : Keeps act) :
    Gives (fun ending => ∀ halt ∈ ending, Halt.IsByte halt) (ending act) := by
  refine gives_tryCatch (h.bind fun _ _ => gives_pure nofun) fun halt hhalt => gives_pure ?_
  rintro _ ⟨⟩
  exact hhalt

section

variable {sink : Sink} {bytes : List UInt8} {message name value : String} {status : Nat}

theorem keeps_emit : Keeps (emit sink bytes) := by
  refine keeps_modify fun state hstate => ?_
  cases sink <;> exact hstate

theorem keeps_sink {channel : Channel} : Keeps (Act.sink channel) := by
  cases channel <;> exact gives_get.bind fun _ _ => gives_pure trivial

theorem keeps_place : Keeps place := gives_get.bind fun _ _ => gives_pure trivial

theorem keeps_complain : Keeps (complain message) :=
  composes.bind keeps_sink fun _ => composes.bind keeps_place fun _ => keeps_emit

/-- A script that ends for an error ends with two. -/
theorem gives_abort : Gives good (abort message) :=
  keeps_complain.bind fun _ _ => gives_throw (by decide : 2 < 256)

theorem keeps_setStatus (h : status < 256) : Keeps (setStatus status) := fun _ _ => ⟨h, trivial⟩

/-- A script that ends for a command that has failed has its status. -/
theorem keeps_endIfFailed : Keeps endIfFailed := by
  refine gives_get.bind fun state hstate => ?_
  split
  · exact gives_throw hstate
  · exact composes.pure _

theorem keeps_setVariable : Keeps (setVariable name value) := keeps_modify fun _ h => h

/-- A tool ends with a status that is not above two. -/
theorem keeps_runTool {readsInput : Bool} {tool : Tool Unit} (h : tool.Keeps) :
    Keeps (runTool readsInput tool) := by
  refine gives_get.bind fun state _ => composes.bind keeps_place fun place => ?_
  have heffect := h ⟨place, file state, namesIn state, state.input⟩ {} (Nat.zero_le 2)
  dsimp only
  refine composes.bind (composes.forIn (fun write _ => ?_) _ _) fun _ => ?_
  · exact composes.bind keeps_sink fun _ => composes.bind keeps_emit fun _ => composes.pure _
  · split
    · exact composes.bind (keeps_modify fun _ h => h) fun _ =>
        keeps_setStatus (Nat.lt_of_le_of_lt heffect (by decide))
    · exact keeps_setStatus (Nat.lt_of_le_of_lt heffect (by decide))

/-- Commands whose changes do not last leave their status. -/
theorem keeps_apart {act : Act Unit} (h : Keeps act) : Keeps (apart act) := by
  refine gives_get.bind fun before _ => (gives_ending h).bind fun ending hending => ?_
  refine gives_get.bind fun after hafter => composes.bind (keeps_set hafter) fun _ => ?_
  split
  · exact gives_throw trivial
  · exact keeps_setStatus (hending _ rfl)
  · exact composes.pure _

/-- Taking the output of commands leaves their status. -/
theorem keeps_capture {act : Act Unit} (h : Keeps act) : Keeps (capture act) := by
  refine gives_get.bind fun before _ => composes.bind (keeps_modify fun _ h => h) fun _ => ?_
  refine composes.bind h fun _ => gives_get.bind fun after hafter => ?_
  exact composes.bind (keeps_set hafter) fun _ => composes.pure _

/-- Commands with output elsewhere leave their status. -/
theorem keeps_restoring {restoresInput : Bool} {act : Act Unit} (h : Keeps act) :
    Keeps (restoring restoresInput act) := by
  refine gives_get.bind fun before _ => (gives_ending h).bind fun ending hending => ?_
  refine composes.bind (keeps_modify fun _ h => h) fun _ => ?_
  cases ending with
  | none => exact composes.pure _
  | some halt => exact gives_throw (hending halt rfl)

/-! ## Commands with names -/

variable {arguments : List String}

/-- Every tool with a name keeps its status low. -/
theorem keeps_tool? : ∀ tool ∈ tool? name arguments, tool.2.Keeps := by
  intro tool htool
  unfold tool? at htool
  dsimp only at htool
  split at htool
  all_goals cases htool
  · exact Tool.composes.pure _
  · exact Tool.composes.pure _
  · exact Tool.composes.pure _
  · exact Tool.keeps_finish (by decide)
  · exact Tool.keeps_echo
  · exact Tool.keeps_printf
  · exact Tool.keeps_test
  · exact Tool.keeps_testInBrackets
  · exact Tool.keeps_cat
  · exact Tool.keeps_wc
  · exact Tool.keeps_head
  · exact Tool.keeps_tail
  · exact Tool.keeps_sort
  · exact Tool.keeps_ls
  · exact Tool.keeps_basename
  · exact Tool.keeps_dirname

theorem keeps_numberOr {default : Nat} {argument : Option String} :
    Keeps (numberOr name default argument) := by
  unfold numberOr
  split
  · exact composes.pure _
  · split
    · exact composes.pure _
    · exact gives_abort

/-- Sending a signal succeeds, fails with one or ends the script. -/
theorem keeps_kill : Keeps (kill arguments) := by
  have hsent (signal : String) (processes : List String) : Keeps (do
      if processes.contains processNumber then
        if harmlessSignals.contains signal then setStatus 0 else throw .killed
      else
        complain "kill: No such process"
        setStatus 1) := by
    split
    · split
      · exact keeps_setStatus (by decide)
      · exact gives_throw trivial
    · exact composes.bind keeps_complain fun _ => keeps_setStatus (by decide)
  exact hsent _ _

/-- Reading a line fails with one at the end of the input. -/
theorem keeps_readLine : Keeps (readLine arguments) := by
  refine gives_get.bind fun state hstate => composes.bind (keeps_set hstate) fun _ => ?_
  refine composes.bind (composes.foldlM (fun _ _ => ?_) _ _) fun rest => ?_
  · exact composes.bind keeps_setVariable fun _ => composes.pure _
  · have hstatus {line : List UInt8} :
        Keeps (setStatus (if line.length < state.input.length then 0 else 1)) := by
      refine keeps_setStatus ?_
      split <;> decide
    dsimp only
    split
    · exact composes.bind keeps_setVariable fun _ => hstatus
    · exact hstatus

/-- The commands that change a script keep its statuses bytes: where one says how the script ends,
the number is cut to a byte. -/
theorem keeps_change? : ∀ change ∈ change? name arguments, Keeps change := by
  intro change hchange
  unfold change? at hchange
  split at hchange
  all_goals cases hchange
  · refine gives_get.bind fun state _ => keeps_numberOr.bind fun status _ => ?_
    exact gives_throw (Nat.mod_lt status (by decide))
  · exact keeps_numberOr.bind fun _ _ => gives_throw trivial
  · exact keeps_numberOr.bind fun _ _ => gives_throw trivial
  · refine composes.bind keeps_numberOr fun count => gives_get.bind fun state _ => ?_
    dsimp only
    split
    · exact composes.bind gives_abort fun _ => keeps_set (show 0 < 256 by decide)
    · exact keeps_set (show 0 < 256 by decide)
  · split
    · exact composes.bind (keeps_modify fun _ h => h) fun _ => keeps_setStatus (by decide)
    · exact composes.bind (keeps_modify fun _ h => h) fun _ => keeps_setStatus (by decide)
    · exact composes.bind (keeps_modify fun _ h => h) fun _ => keeps_setStatus (by decide)
    · exact keeps_setStatus (by decide)
  · exact keeps_readLine
  · exact keeps_kill

/-! ## Redirections -/

variable {expand : Bool → Word → Act Fields} {word : Word}

theorem keeps_redirect {descriptor : Nat} : Keeps (redirect descriptor sink) := by
  refine keeps_modify fun state hstate => ?_
  split
  · exact hstate
  · split <;> exact hstate

theorem keeps_sinkAt {atEnd : Bool} {path : String} : Keeps (sinkAt atEnd path) := by
  unfold sinkAt
  split
  · exact composes.pure _
  · exact gives_get.bind fun _ _ => composes.pure _
  · exact gives_get.bind fun _ _ => composes.pure _
  · dsimp only
    split
    · exact composes.bind (keeps_modify fun _ h => h) fun _ => composes.pure _
    · exact composes.pure _

theorem keeps_whole (hexpand : ∀ splits word, Keeps (expand splits word)) :
    Keeps (whole expand word) :=
  composes.bind (hexpand false word) fun _ => composes.pure _

/-- A redirection keeps the statuses bytes if the expansion of words does. -/
theorem keeps_follow (hexpand : ∀ splits word, Keeps (expand splits word))
    {redirection : Redirection} : Keeps (follow expand redirection) := by
  cases redirection with
  | read file =>
    refine composes.bind (keeps_whole hexpand) fun path => gives_get.bind fun state _ => ?_
    split
    · exact composes.bind (keeps_modify fun _ h => h) fun _ => composes.pure _
    · exact composes.bind keeps_complain fun _ => composes.pure _
  | write descriptor atEnd file =>
    refine composes.bind (keeps_whole hexpand) fun path => ?_
    exact composes.bind keeps_sinkAt fun _ => composes.bind keeps_redirect fun _ => composes.pure _
  | copy descriptor target =>
    refine composes.bind (keeps_whole hexpand) fun path => ?_
    dsimp only
    split
    · exact gives_get.bind fun _ _ => composes.bind keeps_redirect fun _ => composes.pure _
    · exact gives_get.bind fun _ _ => composes.bind keeps_redirect fun _ => composes.pure _
    · exact composes.bind keeps_redirect fun _ => composes.pure _

/-- Commands with redirections that cannot be followed fail with two. -/
theorem keeps_redirecting (hexpand : ∀ splits word, Keeps (expand splits word))
    {redirections : List Redirection} {act : Act Unit} (h : Keeps act) :
    Keeps (redirecting expand redirections act) := by
  unfold redirecting
  dsimp only
  split
  · exact h
  · refine keeps_restoring ?_
    refine composes.bind (composes.allM (fun _ => keeps_follow hexpand) _) fun isDone => ?_
    split
    · exact h
    · exact keeps_setStatus (by decide)

/-! ## Simple commands -/

theorem keeps_assign (hexpand : ∀ splits word, Keeps (expand splits word))
    {assignments : List (String × Word)} : Keeps (assign expand assignments) :=
  composes.forM (fun _ => composes.bind (keeps_whole hexpand) fun _ => keeps_setVariable) _

/-- A command that cannot be called fails with one of two statuses. -/
theorem keeps_complainOfCommand : Keeps (complainOfCommand name) := by
  have hstatus (isThere : Bool) :
      (if isThere then ("Permission denied", 126) else ("not found", 127)).2 < 256 := by
    cases isThere <;> decide
  refine gives_get.bind fun state _ => ?_
  exact composes.bind keeps_complain fun _ => keeps_setStatus (hstatus _)

variable {shell : List String → Act Unit}

/-- A call keeps the statuses bytes, whether a command, a tool or a shell is called. -/
theorem keeps_call (hshell : ∀ arguments, Keeps (shell arguments)) :
    Keeps (call shell name arguments) := by
  unfold call
  split
  · exact keeps_change? _ ‹_›
  · exact keeps_runTool (keeps_tool? _ ‹_›)
  · split
    · exact hshell arguments
    · exact keeps_complainOfCommand

/-- A script that is replaced by a command ends with the status of the command. -/
theorem keeps_callFrom (hshell : ∀ arguments, Keeps (shell arguments)) :
    Keeps (callFrom shell name arguments) := by
  unfold callFrom
  split
  · exact composes.bind (keeps_call hshell) fun _ => gives_get.bind fun _ hstate =>
      gives_throw hstate
  · exact keeps_call hshell

/-- A simple command keeps the statuses bytes if expansion and shells do. -/
theorem keeps_runSimple (hexpand : ∀ splits word, Keeps (expand splits word))
    (hshell : ∀ arguments, Keeps (shell arguments)) {command : Simple} :
    Keeps (runSimple expand shell command) := by
  refine composes.bind (keeps_modify fun _ h => h) fun _ => ?_
  refine composes.bind (composes.mapM (fun _ => ?_) _) fun words => ?_
  · exact composes.bind (hexpand true _) fun _ => composes.pure _
  split
  · refine keeps_redirecting hexpand (composes.bind (keeps_assign hexpand) fun _ => ?_)
    split
    · exact keeps_setStatus (by decide)
    · exact composes.pure _
  · refine keeps_redirecting hexpand (gives_get.bind fun state _ => ?_)
    refine composes.bind (keeps_assign hexpand) fun _ => ?_
    refine composes.bind (keeps_callFrom hshell) fun _ => ?_
    exact composes.bind (composes.forIn (fun _ _ => composes.bind keeps_setVariable fun _ =>
      composes.pure _) _ _) fun _ => composes.pure _

/-! ## Words -/

theorem keeps_orAbort {read : Except (Nat × ScriptFault) α} : Keeps (orAbort read) := by
  cases read with
  | ok a => exact composes.pure _
  | error e => exact composes.bind (keeps_modify fun _ h => h) fun _ => gives_abort

/-- Expansion keeps the statuses bytes if the scripts in words do. -/
theorem keeps_addWord {run : List Char → Act String} (hrun : ∀ script, Keeps (run script))
    {splits : Bool} {depth : Nat} {fields : Fields} :
    Keeps (addWord run splits depth word fields) := by
  induction depth generalizing word fields with
  | zero => exact gives_abort
  | succ depth ih =>
    rw [addWord]
    refine composes.foldlM (fun fields piece => ?_) _ _
    -- the word that stands in place of a variable that is not set
    have hother {isQuoted : Bool} {text : List Char} {fields : Fields} : Keeps (do
        addWord run splits depth (← orAbort (readWord isQuoted text)) fields) :=
      composes.bind keeps_orAbort fun _ => ih
    dsimp only
    split
    · split
      · exact composes.pure _
      · exact composes.pure _
    · exact composes.bind (hrun _) fun _ => composes.pure _
    · refine composes.bind keeps_orAbort fun _ => composes.bind ih fun fields => ?_
      refine gives_get.bind fun state _ => ?_
      split
      · exact composes.pure _
      · exact gives_abort
    · split
      · exact gives_abort
      · refine gives_get.bind fun state _ => ?_
        split
        · exact composes.pure _
        · exact composes.pure _
        · split
          · exact composes.pure _
          · split
            · refine composes.bind hother fun _ => ?_
              exact composes.bind keeps_setVariable fun _ => composes.pure _
            · exact hother
        · split
          · exact hother
          · split
            · exact composes.pure _
            · exact composes.pure _
        · split
          · exact composes.pure _
          · exact composes.bind hother fun _ => gives_abort
        · exact composes.bind keeps_orAbort fun _ => composes.bind ih fun _ => composes.pure _

/-! ## Commands -/

/-- A round of a loop may end the loop or loops around it. -/
theorem keeps_roundOf {body : Act Unit} (h : Keeps body) : Keeps (roundOf body) := by
  refine gives_get.bind fun state _ => (gives_ending h).bind fun ending hending => ?_
  refine composes.bind (keeps_modify fun _ h => h) fun _ => ?_
  split
  · exact composes.pure _
  · exact gives_throw trivial
  · exact composes.pure _
  · exact gives_throw (hending _ rfl)

/-- A shell starts with zero and keeps the statuses bytes if its commands do. -/
theorem keeps_runShell {execute : Command → Act Unit} (h : ∀ command, Keeps (execute command)) :
    Keeps (runShell execute arguments) := by
  refine gives_get.bind fun state _ => ?_
  dsimp only
  split
  · exact composes.bind (keeps_modify fun _ h => h) fun _ => gives_abort
  · exact composes.bind (keeps_modify fun _ _ => Nat.zero_lt_succ 255) fun _ =>
      composes.bind keeps_orAbort fun _ => h _

/-- A loop keeps the statuses bytes if each round does, where the rounds go on from what is of some
kind. -/
theorem keeps_rounds {exhausted : Act β} {round : α → Act (α ⊕ β)} (hexhausted : Keeps exhausted)
    (hround : ∀ a, good a → Gives (fun result => ∀ next, result = .inl next → good next) (round a))
    {n : Nat} {a : α} (ha : good a) : Keeps (rounds exhausted round n a) := by
  induction n generalizing a with
  | zero => exact hexhausted
  | succ n ih =>
    refine (hround a ha).bind fun result hresult => ?_
    cases result with
    | inl next => exact ih (hresult next rfl)
    | inr b => exact composes.pure b

/-- A script keeps its statuses bytes, however deep its commands stand inside each other. -/
theorem keeps_execute {depth : Nat} {command : Command} : Keeps (execute depth command) := by
  induction depth generalizing command with
  | zero => exact gives_abort
  | succ depth ih =>
    unfold execute
    extract_lets outputOf expand succeeds
    have hexpand : ∀ splits word, Keeps (expand splits word) := fun splits word =>
      keeps_addWord fun script => composes.bind keeps_orAbort fun command =>
        composes.bind (keeps_capture (keeps_apart ih)) fun _ => composes.pure _
    have hsucceeds : ∀ command, Keeps (succeeds command) := fun command =>
      gives_get.bind fun _ _ => composes.bind (keeps_modify fun _ h => h) fun _ =>
        composes.bind ih fun _ => composes.bind (keeps_modify fun _ h => h) fun _ =>
          gives_get.bind fun _ _ => composes.pure _
    have hround {body : Command} : Keeps (roundOf (execute depth body)) := keeps_roundOf ih
    cases command with
    | nothing => exact composes.pure _
    | simple command =>
      exact composes.bind (keeps_runSimple hexpand fun _ =>
        keeps_apart (keeps_runShell fun _ => ih))
        fun _ => keeps_endIfFailed
    | sequence first second => exact composes.bind ih fun _ => ih
    | both first second =>
      refine composes.bind (hsucceeds first) fun holds => ?_
      split
      · exact ih
      · exact composes.pure _
    | either first second =>
      refine composes.bind (hsucceeds first) fun holds => ?_
      split
      · exact ih
      · exact composes.pure _
    | negation command =>
      refine composes.bind (hsucceeds command) fun holds => keeps_setStatus ?_
      cases holds <;> decide
    | pipe first second =>
      refine gives_get.bind fun state _ => ?_
      refine composes.bind (keeps_capture (keeps_apart ih)) fun bytes => ?_
      refine composes.bind (keeps_apart ?_) fun _ => ?_
      · exact composes.bind (keeps_modify fun _ h => h) fun _ => ih
      · exact composes.bind (keeps_modify fun _ h => h) fun _ => keeps_endIfFailed
    | choice test body otherwise =>
      refine composes.bind (hsucceeds test) fun holds => ?_
      split
      · exact ih
      · exact composes.bind (keeps_setStatus (by decide)) fun _ => ih
    | loop goesOn test body =>
      -- The status of the last round is the one that a loop ends with.
      refine keeps_rounds gives_abort (fun status (hstatus : status < 256) => ?_) (by decide)
      refine (hsucceeds test).bind fun holds _ => ?_
      split
      · refine hround.bind fun isMore _ => ?_
        split
        · refine gives_get.bind fun state hstate => gives_pure ?_
          rintro _ ⟨⟩
          exact hstate
        · exact gives_pure nofun
      · exact (keeps_setStatus hstatus).bind fun _ _ => gives_pure nofun
    | each name words body =>
      dsimp -zeta only
      extract_lets run
      have hrun (values : List String) : Keeps (run values) := by
        dsimp -zeta only [run]
        extract_lets loop
        have hloop : Keeps (loop ()) := by
          refine composes.rounds (composes.pure _) (fun values => ?_) _ _
          cases values with
          | nil => exact composes.pure _
          | cons value values =>
            refine composes.bind keeps_setVariable fun _ => composes.bind hround fun isMore => ?_
            split <;> exact composes.pure _
        split
        · exact composes.bind (keeps_setStatus (by decide)) fun _ => hloop
        · exact hloop
      cases words with
      | none => exact gives_get.bind fun state _ => hrun state.arguments
      | some words =>
        refine composes.bind (composes.mapM (fun word => ?_) _) fun fields => hrun fields.flatten
        exact composes.bind (hexpand true word) fun _ => composes.pure _
    | select word patterns body otherwise =>
      refine composes.bind (hexpand false word) fun fields => ?_
      refine composes.bind (composes.anyM (fun pattern => ?_) _) fun isFound => ?_
      · exact composes.bind (hexpand false pattern) fun _ => composes.pure _
      · exact composes.bind (keeps_setStatus (by decide)) fun _ => ih
    | apart command => exact composes.bind (keeps_apart ih) fun _ => keeps_endIfFailed
    | redirected redirections command => exact keeps_redirecting hexpand ih

end

end Act

/-! ## Programs -/

/-- A script that starts with a byte as its status ends with one, if no signal ends it. -/
theorem status_run_lt {state : State} {act : Act Unit} (h : act.Keeps)
    (hstate : state.status < 256) :
    ∀ status ∈ (state.run act).status, 0 ≤ status ∧ status < 256 := by
  have hends := h state hstate
  have hcast {n : Nat} (hn : n < 256) : (0 : Int) ≤ n ∧ (n : Int) < 256 := by omega
  rw [State.run]
  rcases hrun : (ExceptT.run act).run state with ⟨ending, after⟩
  rw [hrun] at hends
  intro status hstatus
  cases ending with
  | ok _ =>
    cases hstatus
    exact hcast hends.1
  | error halt =>
    cases halt with
    | exit n =>
      cases hstatus
      exact hcast hends.2
    | killed => cases hstatus
    | leave loops goesOn =>
      cases hstatus
      exact hcast hends.1

/-- Every program that can be started keeps its statuses bytes. -/
theorem keeps_program? {name : String} {arguments : List String} :
    ∀ act ∈ program? name arguments, act.Keeps := by
  intro act hact
  unfold program? at hact
  split at hact
  · cases hact
    exact Act.keeps_runShell fun _ => Act.keeps_execute
  · obtain ⟨tool, htool, rfl⟩ := Option.map_eq_some_iff.1 hact
    exact Act.keeps_runTool (Act.keeps_tool? tool htool)
  · obtain ⟨tool, htool, rfl⟩ := Option.map_eq_some_iff.1 hact
    exact Act.keeps_runTool (Act.keeps_tool? tool htool)
  · obtain ⟨tool, htool, rfl⟩ := Option.map_eq_some_iff.1 hact
    exact Act.keeps_runTool (Act.keeps_tool? tool htool)
  · cases hact

open Checker Files Verification

/-- A program that is started beside a tree ends with a byte, if no signal ends it. -/
theorem status_launch_lt {tree : Tree} {store : Store} {program : String} {arguments : List String}
    {ending : Ending} (h : launch tree store program arguments = .ok ending) :
    ∀ status ∈ ending.status, 0 ≤ status ∧ status < 256 := by
  rw [launch] at h
  split at h
  · cases h
  · split at h
    · rename_i act hact
      obtain rfl := Except.ok.inj h
      exact status_run_lt (keeps_program? act hact) (Nat.zero_lt_succ 255)
    · cases h

/-- The exit code of a checker that is started beside a tree is the status with which the program
ends. -/
theorem exitStatus_of_check {tree : Tree} {checker : CheckerConfig} {batch : Batch}
    {outcome : Outcome} (h : check (host tree) checker batch = .ok outcome) (documents : Nat) :
    ((CommandLine.Response.decided (.checked documents outcome)).exitStatus : Int) =
      outcome.exitCode := by
  have hbounds : 0 ≤ outcome.exitCode ∧ outcome.exitCode < 256 := by
    rw [check] at h
    obtain ⟨scratch, -, h⟩ := Results.bind_eq_ok.1 h
    obtain ⟨⟨store, files⟩, -, h⟩ := Results.bind_eq_ok.1 h
    dsimp only at h
    split at h
    · rename_i ending hending
      obtain rfl := Results.pure_eq_ok.1 h
      rw [Checker.outcome]
      cases hstatus : ending.status with
      | none => exact (by decide : (0 : Int) ≤ 1 ∧ (1 : Int) < 256)
      | some status => exact status_launch_lt hending status hstatus
    · cases h
  show (CommandLine.status outcome.exitCode : Int) = outcome.exitCode
  rw [CommandLine.status, if_pos (by omega)]
  exact Int.toNat_of_nonneg hbounds.1

end NoteCheck.Shell
