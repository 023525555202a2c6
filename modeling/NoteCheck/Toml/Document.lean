/-
# Configuration documents

A document is read line by line: empty lines and comments, headers, and keys with values. Values
nest no deeper than `maxDepth`.
-/
import NoteCheck.Loop
import NoteCheck.Toml.Text

namespace NoteCheck.Toml

open Read Text

/-- Values, and the keys that lead to them, stay below this depth. -/
def maxDepth : Nat := 80

/-- Rounds as long as they take something from the text. -/
def loop {α β : Type} (round : α → Read (α ⊕ β)) (a : α) : Read β := do
  rounds failure round ((← get).length + 1) a

/-- A blank on a line. -/
def isSpace (c : Char) : Bool := c == ' ' || c == '\t'

/-- Passes over blanks on a line. -/
def spaces : Read Unit := do let _ ← takeWhile isSpace

/-- A line break. -/
def newline? : Read Bool := do
  if ← skip? ['\n'] then return true else skip? ['\r', '\n']

/-- Passes over a comment up to the end of its line. Like a text in quotes, it holds no control
character but the tab. -/
def comment? : Read Bool := do
  if ← skip? ['#'] then
    let _ ← takeWhile QuotedText.isPlain
    return true
  else return false

/-- The end of a line, after blanks and a comment. -/
def lineEnd : Read Unit := do
  spaces
  let _ ← comment?
  if !(← newline?) then
    if !(← get).isEmpty then failure

/-- Passes over blanks, comments and line breaks. -/
def gaps : Read Unit :=
  loop (fun _ => do
    spaces
    let _ ← comment?
    if ← newline? then return .inl () else return .inr ()) ()

/-! ## Keys -/

/-- A character of a key without quotes. -/
def isKeyChar (c : Char) : Bool := c.isAlphanum || c == '-' || c == '_'

/-- A key without dots. -/
def simpleKey : Read String := do
  if (← startsWith ['"']) || (← startsWith ['\'']) then QuotedText.readLine
  else
    let key ← takeWhile isKeyChar
    if key.isEmpty then failure else return String.ofList key

/-- Keys with dots between them. -/
def dottedKey : Read (List String) := do
  let keys ← loop (fun keys => do
    spaces
    let key ← simpleKey
    spaces
    if ← skip? ['.'] then return .inl (keys ++ [key]) else return .inr (keys ++ [key])) []
  if keys.length < maxDepth then return keys else failure

/-- A key with a value that the given reader reads, put into a table. -/
def keyValue (value : Read Value) (kind : TableKind) (entries : Entries) : Read Entries := do
  let keys ← dottedKey
  expect ['=']
  spaces
  let value ← value
  StateT.lift (Entries.put keys.dropLast (keys.getLastD "") value kind entries)

/-! ## Values -/

section Nested

variable (value : Read Value)

/-- The elements of an array after its bracket, and the closing bracket. -/
def arrayAfter : Read Value := do
  let elements ← loop (fun elements => do
    gaps
    if ← skip? [']'] then return .inr elements
    else
      let elements := elements ++ [← value]
      gaps
      if ← skip? [','] then return .inl elements
      else
        expect [']']
        return .inr elements) []
  return .array elements

/-- The entries of a table after its brace, and the closing brace. -/
def tableAfter : Read Value := do
  spaces
  if ← skip? ['\x7d'] then return .table .inline []
  else
    let entries ← loop (fun entries => do
      let entries ← keyValue value .inline entries
      spaces
      if ← skip? [','] then return .inl entries
      else
        expect ['\x7d']
        return .inr entries) []
    return .table .inline entries

/-- A value that may hold others, given a reader for the values inside it. -/
def nestedOr (scalar : Read Value) : Read Value := do
  if ← skip? ['['] then arrayAfter value
  else if ← skip? ['\x7b'] then tableAfter value
  else scalar

end Nested

/-- A value without values inside it. -/
def scalar : Read Value := do
  match (← get).head? with
  | some '"' | some '\'' => return .string (← QuotedText.read)
  | some 't' => expect "true".toList; return .boolean true
  | some 'f' => expect "false".toList; return .boolean false
  | _ => Date.read <|> Number.float <|> Number.integer

/-- A value with arrays and tables inside each other at most to the given depth. -/
def valueWithin : Nat → Read Value
  | 0 => scalar
  | depth + 1 => nestedOr (valueWithin depth) scalar

/-- A value. -/
def value : Read Value := valueWithin (maxDepth - 1)

/-! ## Documents -/

/-- A document that is being read, and the table to which keys are added. -/
structure Document where
  entries : Entries := []
  current : List String := []
  deriving Repr

namespace Document

/-- Opens a table of which the header stands in the text. -/
def header (document : Document) : Read Document := do
  expect ['[']
  let isElement ← skip? ['[']
  let keys ← dottedKey
  expect (if isElement then [']', ']'] else [']'])
  lineEnd
  let key := keys.getLastD ""
  let opening := if isElement then Entries.openElement key else Entries.openTable key
  let entries ← StateT.lift (Entries.change false opening keys.dropLast .header document.entries)
  return { entries, current := keys }

/-- Adds a key with its value to the current table. -/
def line (document : Document) : Read Document := do
  let keys ← dottedKey
  expect ['=']
  spaces
  let value ← value
  lineEnd
  let put := Entries.put keys.dropLast (keys.getLastD "") value
  let entries ← StateT.lift (Entries.change false put document.current .header document.entries)
  return { document with entries }

/-- Reads the rest of a document. -/
def rest : Read Document :=
  loop (fun document => do
    gaps
    if (← get).isEmpty then return .inr document
    else if ← startsWith ['['] then return .inl (← document.header)
    else return .inl (← document.line)) {}

end Document

/-- The table of a document, if the text is one. A byte order mark at the beginning is passed
over. -/
def readDocument? (text : String) : Option Entries := do
  let read : Read Document := do
    let _ ← skip? ['\uFEFF']
    Document.rest
  let (document, _) ← read.run text.toList
  return document.entries

end NoteCheck.Toml
