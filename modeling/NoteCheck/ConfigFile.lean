/-
# Configuration files

A configuration is written as a TOML document. Every key may be left out, and then the default
holds; keys that mean nothing here are passed over. How a text is read as a document is left open
here: whoever loads a configuration brings a reader along.
-/
import NoteCheck.Config
import NoteCheck.Files.Tree
import NoteCheck.Toml.Value

namespace NoteCheck

open Files Toml

/-- What the value under a key stands for, or a default where there is no value. -/
def readOr {α : Type} (default : α) (read : Value → Option α) : Option Value → Option α
  | some value => read value
  | none => some default

/-- The text that a value is. -/
def textOf? : Value → Option String
  | .string text => some text
  | _ => none

/-- The texts that an array holds. -/
def textsOf? : Value → Option (List String)
  | .array elements => elements.mapM textOf?
  | _ => none

namespace CheckerConfig

/-- A checker with a program and arguments that may be left out. -/
def ofParts? (program arguments : Option Value) : Option CheckerConfig := do
  let default : CheckerConfig := {}
  return {
    program := ← readOr default.program textOf? program
    arguments := ← readOr default.arguments textsOf? arguments }

/-- The checker that a value describes: a table with keys, or an array with the program first and
the arguments second. A date is a table without any of the keys. -/
def ofValue? : Value → Option CheckerConfig
  | .table _ entries => ofParts? (entries.lookup "program") (entries.lookup "args")
  | .array elements => ofParts? elements[0]? elements[1]?
  | .dateTime _ => ofParts? none none
  | _ => none

end CheckerConfig

namespace Config

/-- The configuration that the table of a document describes. -/
def ofEntries? (entries : Entries) : Option Config := do
  let default : Config := {}
  return {
    documentName := ← readOr default.documentName textOf? (entries.lookup "document_filename")
    signatureMarker := ← readOr default.signatureMarker textOf? (entries.lookup "signature_marker")
    lambdaHeading := ← readOr default.lambdaHeading textOf? (entries.lookup "lambda_heading")
    checker := ← readOr default.checker CheckerConfig.ofValue? (entries.lookup "checker") }

/-- The configuration that a text describes. -/
def ofText? (readDocument? : String → Option Entries) (text : String) : Option Config :=
  (readDocument? text).bind ofEntries?

end Config

/-- Why there is no configuration. -/
inductive ConfigError where
  | unreadable (path : Path) (cause : SystemError)
  | malformed (path : Path)
  deriving DecidableEq, Repr

namespace ConfigError

/-- The error in words. -/
def message : ConfigError → String
  | unreadable path _ => s!"Failed to read config file: {path}"
  | malformed path => s!"Failed to parse config file: {path}"

/-- What caused the error, in words. -/
def cause? : ConfigError → Option String
  | unreadable _ cause => some cause.message
  | malformed _ => none

end ConfigError

namespace Config

/-- The file that is read where none is named. -/
def defaultFile : Path := "lambda-verify.toml"

/-- The configuration in a file. -/
def read (readDocument? : String → Option Entries) (tree : Tree) (path : Path) :
    Except ConfigError Config := do
  let text ← (tree.read path).mapError (.unreadable path)
  match ofText? readDocument? text with
  | some config => return config
  | none => throw (.malformed path)

/-- The configuration of a run: the one in the file that is named, or else the one in the default
file if it is there. -/
def load (readDocument? : String → Option Entries) (tree : Tree) :
    Option Path → Except ConfigError Config
  | some path => read readDocument? tree path
  | none =>
    if tree.exists? defaultFile then read readDocument? tree defaultFile else return {}

end Config

end NoteCheck
