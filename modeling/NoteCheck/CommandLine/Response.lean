/-
# Responses

What the program answers to its arguments: the text that it prints, an error, and its status.
-/
import NoteCheck.CommandLine.Request
import NoteCheck.ConfigFile
import NoteCheck.Verification.Run

namespace NoteCheck.CommandLine

open Files Verification

/-- Why there is no verdict. -/
inductive Failure where
  | config (error : ConfigError)
  | run (error : RunError)
  deriving DecidableEq, Repr

/-- The error and what caused it, in words. -/
def Failure.message : Failure → String
  | config error => ": ".intercalate (error.message :: error.cause?.toList)
  | run error => ": ".intercalate (error.message :: error.cause?.toList)

/-- What the program answers. -/
inductive Response where
  /-- The arguments ask for no verdict. -/
  | notice (notice : Notice)
  | failed (failure : Failure)
  | decided (verdict : Verdict)
  deriving DecidableEq, Repr

/-- The status for an exit code: the code itself where it is a status, and else failure. -/
def status (exitCode : Int) : Nat := if 0 ≤ exitCode ∧ exitCode ≤ 255 then exitCode.toNat else 1

/-- How the program is called. -/
def helpText : String := "\n".intercalate
  ["Verify lambda representations against typed DSL operations",
    "",
    "Usage: lambda-verify [OPTIONS] <PATHS>...",
    "",
    "Arguments:",
    "  <PATHS>...  Note files, or directories to search for notes",
    "",
    "Options:",
    "  -c, --config <CONFIG>    Configuration file path",
    "      --checker <CHECKER>  Type checker program, overriding the configuration",
    "  -v, --verbose            Enable verbose output",
    "  -h, --help               Print help",
    "  -V, --version            Print version",
    ""]

namespace Response

/-- The status with which the program ends. -/
def exitStatus : Response → Nat
  | notice .misuse => 2
  | notice _ => 0
  | failed _ => 1
  | decided verdict => status verdict.exitCode

/-- What the program prints. -/
def output : Response → String
  | notice .help => helpText
  | notice .version => "lambda-verify 0.1.0\n"
  | notice .misuse => ""
  | failed _ => ""
  | decided (.rejected violations) => String.join (violations.map fun v => v.render ++ "\n")
  | decided (.checked _ outcome) => outcome.output

/-- The error that the program reports. -/
def error? : Response → Option String
  | failed failure => some failure.message
  | _ => none

end Response

/-- The configuration for a request. A checker on the command line stands in for the configured
program; the arguments stay. -/
def Request.configure (request : Request) (config : Config) : Config :=
  { config with checker :=
      { config.checker with program := request.checker.getD config.checker.program } }

/-- What the program leaves to others: to read its arguments, to read the text of a configuration as
a document, and to walk through folders. -/
structure Tools where
  readArguments : List String → Except Notice Request
  readDocument? : String → Option Toml.Entries
  walk : Walk

/-- The answer to arguments, with a way to let a checker check a batch. -/
def respond {m : Type → Type} [Monad m] (tools : Tools)
    (check : CheckerConfig → Batch → m (Except RunError Outcome)) (tree : Tree)
    (arguments : List String) : m Response := do
  match tools.readArguments arguments with
  | .error notice => return .notice notice
  | .ok request =>
    match Config.load tools.readDocument? tree request.config with
    | .error e => return .failed (.config e)
    | .ok config =>
      let config := request.configure config
      match ← run (check config.checker) tools.walk tree config request.paths with
      | .error e => return .failed (.run e)
      | .ok verdict => return .decided verdict

end NoteCheck.CommandLine
