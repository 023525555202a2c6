/-
# Running scripts

Commands change the state of a script, write, and have a status. Every script ends: loops and
commands inside each other are limited.
-/
import NoteCheck.Shell.Expansion
import NoteCheck.Shell.Printing
import NoteCheck.Shell.Test

namespace NoteCheck.Shell

namespace Act

/-! ## Commands with names -/

/-- The tools, and whether they read the input when they are called with some arguments. -/
def tool? (name : String) (arguments : List String) : Option (Bool × Tool Unit) :=
  let hasFile := arguments.any fun argument => !argument.startsWith "-"
  match name with
  | ":" | "true" | "sleep" => some (false, return ())
  | "false" => some (false, Tool.finish 1)
  | "echo" => some (false, Tool.echo arguments)
  | "printf" => some (false, Tool.printf arguments)
  | "test" => some (false, Tool.test arguments)
  | "[" => some (false, Tool.testInBrackets arguments)
  | "cat" => some (!hasFile, Tool.cat arguments)
  | "wc" => some (!hasFile, Tool.wc arguments)
  | "head" => some (!hasFile, Tool.head arguments)
  | "tail" => some (!hasFile, Tool.tail arguments)
  | "sort" => some (!hasFile, Tool.sort arguments)
  | "ls" => some (false, Tool.ls arguments)
  | "basename" => some (false, Tool.basename arguments)
  | "dirname" => some (false, Tool.dirname arguments)
  | _ => none

/-- The number that an argument of a command is, or the end of the script where it is none. -/
def numberOr (command : String) (default : Nat) : Option String → Act Nat
  | none => return default
  | some text =>
    match text.toNat? with
    | some n => return n
    | none => abort s!"{command}: Illegal number: {text}"

/-- The signals that end no process. -/
def harmlessSignals : List String := ["0", "CHLD", "CONT", "URG", "WINCH", "17", "18", "23", "28"]

/-- Sends a signal to processes. There is no process but the script itself. -/
def kill (arguments : List String) : Act Unit := do
  let (signal, processes) := match arguments with
    | "-s" :: signal :: processes => (signal, processes)
    | first :: processes =>
      if first.startsWith "-" then (String.ofList (first.toList.drop 1), processes)
      else ("TERM", arguments)
    | [] => ("TERM", [])
  let processes := if processes.head? = some "--" then processes.tail else processes
  if processes.contains processNumber then
    if harmlessSignals.contains signal then setStatus 0 else throw .killed
  else
    complain "kill: No such process"
    setStatus 1

/-- Reads a line of the input into variables; the last one gets what the others leave. -/
def readLine (arguments : List String) : Act Unit := do
  let names := arguments.filter (!·.startsWith "-")
  let state ← get
  let splits := state.values.lookup "IFS" != some ""
  let line := state.input.takeWhile (· != 10)
  set { state with input := state.input.drop (line.length + 1) }
  let isBlank (c : Char) := splits && (c == ' ' || c == '\t')
  let rest ← names.dropLast.foldlM (fun rest name => do
    let rest := rest.dropWhile isBlank
    setVariable name (String.ofList (rest.takeWhile (!isBlank ·)))
    pure (rest.dropWhile (!isBlank ·))) (Text.Utf8.decodeLossy line)
  if let some name := names.getLast? then
    let rest := ((rest.dropWhile isBlank).reverse.dropWhile isBlank).reverse
    setVariable name (String.ofList rest)
  setStatus (if line.length < state.input.length then 0 else 1)

/-- The commands that change the state of the script, if one has a name. -/
def change? (name : String) (arguments : List String) : Option (Act Unit) :=
  match name with
  | "exit" => some do
    let status ← numberOr "exit" (← get).status arguments.head?
    throw (.exit (status % 256))
  | "break" => some do throw (.leave (← numberOr "break" 1 arguments.head?) false)
  | "continue" => some do throw (.leave (← numberOr "continue" 1 arguments.head?) true)
  | "shift" => some do
    let count ← numberOr "shift" 1 arguments.head?
    let state ← get
    if state.arguments.length < count then abort "shift: can't shift that many"
    set { state with arguments := state.arguments.drop count, status := 0 }
  | "set" => some do
    match arguments with
    | "--" :: arguments => modify ({ · with arguments })
    | "-e" :: _ => modify ({ · with endsOnFailure := true })
    | "+e" :: _ => modify ({ · with endsOnFailure := false })
    | _ => pure ()
    setStatus 0
  | "read" => some (readLine arguments)
  | "kill" => some (kill arguments)
  | _ => none

/-! ## Redirections -/

/-- Lets a channel lead to a sink. -/
def redirect (descriptor : Nat) (sink : Sink) : Act Unit :=
  modify fun state =>
    if descriptor = 1 then { state with output := sink }
    else if descriptor = 2 then { state with errors := sink }
    else state

/-- The sink at a path. -/
def sinkAt (atEnd : Bool) (path : String) : Act Sink := do
  match path with
  | "/dev/null" => return .discarded
  | "/dev/stdout" => return (← get).output
  | "/dev/stderr" => return (← get).errors
  | path =>
    if !atEnd then
      modify fun state => { state with files := state.files.write path [] }
    return .file path

section Running

variable (expand : Bool → Word → Act Fields)

/-- The text of a word that stays whole. -/
def whole (word : Word) : Act String := return String.ofList (joined (← expand false word))

/-- Follows a redirection; the result tells whether that can be done. -/
def follow : Redirection → Act Bool
  | .read file => do
    let path ← whole expand file
    match Act.file (← get) path with
    | .ok bytes =>
      modify ({ · with input := bytes })
      return true
    | .error e =>
      let reason := if e = .notFound then "No such file" else e.reason
      complain s!"cannot open {path}: {reason}"
      return false
  | .write descriptor atEnd file => do
    redirect descriptor (← sinkAt atEnd (← whole expand file))
    return true
  | .copy descriptor target => do
    match ← whole expand target with
    | "1" => redirect descriptor (← get).output
    | "2" => redirect descriptor (← get).errors
    | _ => redirect descriptor .discarded
    return true

/-- Runs commands with redirections. -/
def redirecting (redirections : List Redirection) (act : Act Unit) : Act Unit :=
  let isRead : Redirection → Bool
    | .read _ => true
    | _ => false
  if redirections.isEmpty then act
  else restoring (redirections.any isRead) do
    if ← redirections.allM (follow expand) then act else setStatus 2

/-! ## Simple commands -/

/-- Assigns to variables. -/
def assign (assignments : List (String × Word)) : Act Unit :=
  assignments.forM fun (name, word) => do setVariable name (← whole expand word)

/-- A name without a folder in which programs are. -/
def bareName (name : String) : String :=
  match ["/bin/", "/usr/bin/"].findSome? fun folder => folder.toList.isPrefixOf? name.toList with
  | some rest => String.ofList rest
  | none => name

/-- Writes that a command cannot be called. -/
def complainOfCommand (name : String) : Act Unit := do
  let isThere := match file (← get) name with
    | .ok _ | .error .isAFolder => name.contains '/'
    | .error _ => false
  let (reason, status) := if isThere then ("Permission denied", 126) else ("not found", 127)
  complain s!"{name}: {reason}"
  setStatus status

/-- Calls a command by its name; a shell is called by the given function. -/
def call (shell : List String → Act Unit) (name : String) (arguments : List String) : Act Unit :=
  match change? name arguments, tool? (bareName name) arguments with
  | some act, _ => act
  | none, some (readsInput, tool) => runTool readsInput tool
  | none, none => if bareName name = "sh" then shell arguments else complainOfCommand name

/-- Calls a command by its name, in place of the script if that is asked for. -/
def callFrom (shell : List String → Act Unit) (name : String) (arguments : List String) :
    Act Unit :=
  match name, arguments with
  | "exec", name :: arguments => do
    call shell name arguments
    throw (.exit (← get).status)
  | name, arguments => call shell name arguments

/-- Runs a simple command. -/
def runSimple (shell : List String → Act Unit) (command : Simple) : Act Unit := do
  modify ({ · with line := command.line })
  let words ← command.words.mapM fun word => return (← expand true word).toList.map Glyph.plainText
  match words.flatten with
  | [] =>
    let readsOutput := command.assignments.any fun (_, word) => word.any (·.source = .output)
    redirecting expand command.redirections do
      assign expand command.assignments
      if !readsOutput then setStatus 0
  | name :: arguments =>
    redirecting expand command.redirections do
      let before := (← get).values
      assign expand command.assignments
      callFrom shell name arguments
      for (name, _) in command.assignments do
        setVariable name ((before.lookup name).getD "")

end Running

/-! ## Commands -/

/-- Runs the body of a loop once; the result tells whether the loop goes on. -/
def roundOf (body : Act Unit) : Act Bool := do
  let isTested := (← get).isTested
  let ending ← ending body
  modify ({ · with isTested })
  match ending with
  | none => return true
  | some (.leave (loops + 2) goesOn) => throw (.leave (loops + 1) goesOn)
  | some (.leave _ goesOn) => return goesOn
  | some halt => throw halt

/-- A text without line breaks at its end. -/
def withoutBreaks (text : List Char) : List Char :=
  (text.reverse.dropWhile (· == '\n')).reverse

/-- What the options of the shell ask for. -/
structure ShellOptions where
  /-- The script is an argument, not a file. -/
  isGiven : Bool := false
  endsOnFailure : Bool := false
  deriving DecidableEq, Repr

/-- The options at the beginning of the arguments of the shell, and the other arguments. -/
def shellOptions (options : ShellOptions) :
    List String → Except String (ShellOptions × List String)
  | [] => .ok (options, [])
  | argument :: arguments =>
    match argument.toList with
    | ['-'] | ['-', '-'] => .ok (options, arguments)
    | sign :: letter :: letters =>
      if sign = '-' ∨ sign = '+' then
        match (letter :: letters).find? (!"cefIimnsxvVECabu".toList.contains ·) with
        | some letter => .error s!"Illegal option {sign}{letter}"
        | none =>
          shellOptions
            { isGiven := options.isGiven || (letter :: letters).contains 'c'
              endsOnFailure :=
                if (letter :: letters).contains 'e' then sign = '-' else options.endsOnFailure }
            arguments
      else .ok (options, argument :: arguments)
    | _ => .ok (options, argument :: arguments)

/-- The script to which arguments of the shell lead, with the name and the arguments that it
has. Without arguments the input is the script. -/
def shellScript (state : State) (options : ShellOptions) :
    List String → Except String (List Char × String × List String)
  | [] =>
    if options.isGiven then .error "-c requires an argument"
    else .ok (Text.Utf8.decodeLossy state.input, "sh", [])
  | first :: arguments =>
    if options.isGiven then .ok (first.toList, arguments.headD "sh", arguments.tail)
    else
      match file state first with
      | .ok bytes => .ok (Text.Utf8.decodeLossy bytes, first, arguments)
      | .error e =>
        let reason := if e = .notFound then "No such file" else e.reason
        .error s!"cannot open {first}: {reason}"

/-- Runs the shell with arguments; commands are run by the given function. -/
def runShell (execute : Command → Act Unit) (arguments : List String) : Act Unit := do
  let state ← get
  let start := do
    let (options, arguments) ← shellOptions {} arguments
    return (options, ← shellScript state options arguments)
  match start with
  | .error message =>
    modify ({ · with name := "sh", line := 0 })
    abort message
  | .ok (options, script, name, arguments) =>
    modify ({ · with
      name, arguments, values := [], status := 0, line := 1
      endsOnFailure := options.endsOnFailure, isTested := false })
    execute (← orAbort (readScript script))

/-- Runs a command. Commands stand inside each other, and loops have rounds, at most so many
times. -/
def execute : Nat → Command → Act Unit
  | 0, _ => abort "Maximum nesting level exceeded"
  | depth + 1, command =>
    let outputOf (script : List Char) : Act String := do
      let command ← orAbort (readScript script)
      let bytes ← capture (apart (execute depth command))
      return String.ofList (withoutBreaks ((Text.Utf8.decodeLossy bytes).filter (· != '\x00')))
    let expand (splits : Bool) (word : Word) : Act Fields := addWord outputOf splits depth word {}
    let succeeds (command : Command) : Act Bool := do
      let isTested := (← get).isTested
      modify ({ · with isTested := true })
      execute depth command
      modify ({ · with isTested })
      return (← get).status = 0
    match command with
    | .nothing => return ()
    | .simple command => do
      runSimple expand (fun arguments => apart (runShell (execute depth) arguments)) command
      endIfFailed
    | .sequence first second => do
      execute depth first
      execute depth second
    | .both first second => do if ← succeeds first then execute depth second
    | .either first second => do if !(← succeeds first) then execute depth second
    | .negation command => do setStatus (if ← succeeds command then 1 else 0)
    | .pipe first second => do
      let input := (← get).input
      let bytes ← capture (apart (execute depth first))
      apart do
        modify ({ · with input := bytes })
        execute depth second
      modify ({ · with input })
      endIfFailed
    | .choice test body otherwise => do
      if ← succeeds test then execute depth body
      else
        setStatus 0
        execute depth otherwise
    | .loop goesOn test body =>
      rounds (abort "Maximum number of rounds exceeded") (fun status => do
        if (← succeeds test) = goesOn then
          if ← roundOf (execute depth body) then return .inl (← get).status else return .inr ()
        else
          setStatus status
          return .inr ()) depth 0
    | .each name words body => do
      let values ← match words with
        | some words => do
          let fields ← words.mapM fun word =>
            return (← expand true word).toList.map Glyph.plainText
          pure fields.flatten
        | none => pure (← get).arguments
      if values.isEmpty then setStatus 0
      rounds (return ()) (fun values => do
        match values with
        | [] => return .inr ()
        | value :: values =>
          setVariable name value
          if ← roundOf (execute depth body) then return .inl values else return .inr ())
        (values.length + 1) values
    | .select word patterns body otherwise => do
      let text := joined (← expand false word)
      let isFound ← patterns.anyM fun pattern => do
        return isMatchOf (← expand false pattern).toList.flatten text
      setStatus 0
      execute depth (if isFound then body else otherwise)
    | .apart command => do
      apart (execute depth command)
      endIfFailed
    | .redirected redirections command =>
      redirecting expand redirections (execute depth command)

/-- How deep commands may stand inside each other. -/
def maxDepth : Nat := 10000

end Act

/-! ## Programs -/

/-- Runs a program to its end. -/
def State.run (state : State) (act : Act Unit) : Checker.Ending :=
  let (ending, state) := (ExceptT.run act).run state
  let status : Option Int := match ending with
    | .error (.exit status) => some status
    | .error .killed => none
    | _ => some state.status
  ⟨status, state.buffers[0]?.getD [], state.buffers[1]?.getD []⟩

/-- The program with a name, called with arguments. -/
def program? (name : String) (arguments : List String) : Option (Act Unit) :=
  match Act.bareName name with
  | "sh" => some (Act.runShell (Act.execute Act.maxDepth) arguments)
  | "cat" | "true" | "false" =>
    (Act.tool? (Act.bareName name) arguments).map fun (_, tool) => Act.runTool true tool
  | _ => none

end NoteCheck.Shell
