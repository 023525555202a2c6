/-
# Arguments

How arguments are read as a request. Options may stand before, between and after the paths, and each
at most once; after two dashes everything is a path.
-/
import NoteCheck.CommandLine.Request

namespace NoteCheck.CommandLine

/-- An option that takes a value. -/
inductive Setting where
  | config
  | checker
  deriving DecidableEq, Repr

namespace Request

/-- Adds a path. No path is empty. -/
def addPath (request : Request) (path : String) : Except Notice Request :=
  if path.isEmpty then throw .misuse else return { request with paths := request.paths ++ [path] }

/-- Gives an option a value, once. A file has a name that is not empty. -/
def give (request : Request) (setting : Setting) (value : String) : Except Notice Request :=
  match setting with
  | .config =>
    if request.config.isSome || value.isEmpty then throw .misuse
    else return { request with config := some value }
  | .checker =>
    if request.checker.isSome then throw .misuse else return { request with checker := some value }

/-- Asks for more of the log, once. -/
def beVerbose (request : Request) : Except Notice Request :=
  if request.isVerbose then throw .misuse else return { request with isVerbose := true }

end Request

/-- An argument begins like an option. A dash alone is a path. -/
def isOption (argument : String) : Bool := argument.toList.head? = some '-' && argument != "-"

/-- Reads the letters of options. What follows the letter of an option with a value is the value,
and otherwise the next argument is. -/
def readLetters (request : Request) : List Char → Except Notice (Request × Option Setting)
  | [] => return (request, none)
  | 'v' :: letters => do readLetters (← request.beVerbose) letters
  | 'V' :: _ => throw .version
  | 'h' :: _ => throw .help
  | ['c'] => return (request, some .config)
  | 'c' :: '=' :: value => return (← request.give .config (String.ofList value), none)
  | 'c' :: value => return (← request.give .config (String.ofList value), none)
  | _ => throw .misuse

/-- Reads an option with a value, which may stand with it. -/
def readSetting (request : Request) (setting : Setting) :
    Option String → Except Notice (Request × Option Setting)
  | none => return (request, some setting)
  | some value => return (← request.give setting value, none)

/-- Reads an option by its name. -/
def readName (request : Request) (name : String) (value : Option String) :
    Except Notice (Request × Option Setting) :=
  match name, value with
  | "config", value => readSetting request .config value
  | "checker", value => readSetting request .checker value
  | "verbose", none => return (← request.beVerbose, none)
  | "help", none => throw .help
  | "version", none => throw .version
  | _, _ => throw .misuse

/-- Reads an option, and gives the one that waits for the next argument if it does. -/
def readOption (request : Request) (option : String) :
    Except Notice (Request × Option Setting) :=
  match option.toList with
  | '-' :: '-' :: text =>
    let name := text.takeWhile (· != '=')
    let value := text.drop name.length
    readName request (String.ofList name)
      (if value.isEmpty then none else some (String.ofList value.tail))
  | _ :: letters => readLetters request letters
  | [] => throw .misuse

/-- Reads arguments from the first on, which is the value of an option if one waits for it. -/
def readArguments (request : Request) : Option Setting → List String → Except Notice Request
  | none, [] => return request
  | some _, [] => throw .misuse
  | some setting, value :: arguments => do
    if isOption value then throw .misuse
    else readArguments (← request.give setting value) none arguments
  | none, argument :: arguments => do
    if argument = "--" then arguments.foldlM Request.addPath request
    else if isOption argument then
      let (request, waiting) ← readOption request argument
      readArguments request waiting arguments
    else readArguments (← request.addPath argument) none arguments

/-- What arguments ask for. At least one path has to be given. -/
def Request.ofArguments (arguments : List String) : Except Notice Request := do
  let request ← readArguments {} none arguments
  if request.paths.isEmpty then throw .misuse else return request

end NoteCheck.CommandLine
