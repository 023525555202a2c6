/-
# The state of a script

What a script knows and has written so far, and how it ends early.
-/
import NoteCheck.Checker.Host
import NoteCheck.Files.Discovery
import NoteCheck.Shell.Tool
import NoteCheck.Sorted

namespace NoteCheck.Shell

open Files

/-- Where output goes. -/
inductive Sink where
  /-- One of the buffers of the state. -/
  | buffer (index : Nat)
  | file (path : Path)
  | discarded
  deriving DecidableEq, Repr

/-- The state of a script. -/
structure State where
  /-- The files that are there before the script starts. -/
  tree : Tree
  /-- Files beside the tree, and files that the script writes. -/
  files : Checker.Store := []
  name : String := "sh"
  arguments : List String := []
  /-- The values of variables. -/
  values : List (String × String) := []
  status : Nat := 0
  line : Nat := 1
  /-- A command that fails ends the script, unless its status is asked for. -/
  endsOnFailure : Bool := false
  /-- The status of the current command is asked for. -/
  isTested : Bool := false
  input : List UInt8 := []
  /-- What is written, last bytes last: first the output of the script, then its errors, then what
  goes from one command to another. -/
  buffers : List (List UInt8) := [[], []]
  output : Sink := .buffer 0
  errors : Sink := .buffer 1
  deriving Repr

/-- How a command ends what is around it. -/
inductive Halt where
  | exit (status : Nat)
  /-- A signal ends the script. -/
  | killed
  /-- So many loops end, and the last of them may go on with its next round. -/
  | leave (loops : Nat) (goesOn : Bool)
  deriving DecidableEq, Repr

/-- A script at work. What it did before it ended is kept. -/
abbrev Act := ExceptT Halt (StateM State)

namespace Act

/-- The number of the process that runs a script. -/
def processNumber : String := "2"

/-- The names in a folder of files beside the tree. -/
def namesBeside (state : State) (folder : Path) : List String :=
  let start := folder.toList ++ ['/']
  state.files.filterMap fun (path, _) =>
    (start.isPrefixOf? path.toList).map fun rest => String.ofList (rest.takeWhile (· != '/'))

/-- The bytes of a file. -/
def file (state : State) (path : Path) : Except SystemError (List UInt8) :=
  if path = "/dev/null" then .ok []
  else
    match state.files.read? path with
    | some bytes => .ok bytes
    | none =>
      if path.isEmpty || (namesBeside state path).isEmpty then state.tree.readBytes path
      else .error .isAFolder

/-- The names in a folder. -/
def namesIn (state : State) (folder : Path) : List String :=
  let inTree := match state.tree.find folder with
    | .ok (place, .folder _) => (state.tree.below place).filterMap List.head?
    | _ => []
  Sorted.ofList (namesBeside state folder ++ inTree)

/-- Writes bytes where a sink leads. -/
def emit (sink : Sink) (bytes : List UInt8) : Act Unit :=
  modify fun state =>
    match sink with
    | .buffer index => { state with buffers := state.buffers.modify index (· ++ bytes) }
    | .file path =>
      let before := (file state path).toOption.getD []
      { state with files := state.files.write path (before ++ bytes) }
    | .discarded => state

/-- The sink of a channel. -/
def sink (channel : Channel) : Act Sink := do
  match channel with
  | .output => return (← get).output
  | .errors => return (← get).errors

/-- The name of the script and the line. -/
def place : Act String := do
  let state ← get
  return s!"{state.name}: {state.line}"

/-- Writes an error of the script. -/
def complain (message : String) : Act Unit := do
  emit (← sink .errors) (Text.Utf8.encode s!"{← place}: {message}\n")

/-- Ends the script for an error. -/
def abort {α : Type} (message : String) : Act α := do
  complain message
  throw (.exit 2)

/-- Sets the status. -/
def setStatus (status : Nat) : Act Unit := modify ({ · with status })

/-- Ends the script if a command has failed and that is to end it. -/
def endIfFailed : Act Unit := do
  let state ← get
  if state.endsOnFailure && !state.isTested && state.status != 0 then throw (.exit state.status)

/-- Sets a variable. -/
def setVariable (name value : String) : Act Unit :=
  modify fun state =>
    { state with values := (name, value) :: state.values.filter (·.1 != name) }

/-- Runs a tool. What reads the input leaves none of it. -/
def runTool (readsInput : Bool) (tool : Tool Unit) : Act Unit := do
  let state ← get
  let (_, effect) := (tool.run ⟨← place, file state, namesIn state, state.input⟩).run {}
  for (channel, bytes) in effect.writes do emit (← sink channel) bytes
  if readsInput then modify ({ · with input := [] })
  setStatus effect.status

/-- Runs commands, and gives how they end early if they do. -/
def ending (act : Act Unit) : Act (Option Halt) :=
  tryCatch (do act; return none) fun halt => return some halt

/-- Runs commands whose changes of the state do not last, except for what they write and the input
that they take. An early end ends only them; a signal ends the script. -/
def apart (act : Act Unit) : Act Unit := do
  let before ← get
  let ending ← ending act
  let after ← get
  set { before with
    status := after.status, input := after.input, files := after.files, buffers := after.buffers }
  match ending with
  | some .killed => throw .killed
  | some (.exit status) => setStatus status
  | _ => return ()

/-- Runs commands with a buffer of its own for the output, and gives what they write into it. -/
def capture (act : Act Unit) : Act (List UInt8) := do
  let before ← get
  let index := before.buffers.length
  modify fun state => { state with buffers := state.buffers ++ [[]], output := .buffer index }
  act
  let after ← get
  set { after with buffers := after.buffers.take index, output := before.output }
  return (after.buffers[index]?).getD []

/-- Runs commands for which output, and perhaps input, leads elsewhere for a while. -/
def restoring (restoresInput : Bool) (act : Act Unit) : Act Unit := do
  let before ← get
  let ending ← ending act
  modify fun state =>
    { state with
      input := if restoresInput then before.input else state.input
      output := before.output, errors := before.errors }
  match ending with
  | some halt => throw halt
  | none => return ()

end Act

end NoteCheck.Shell
