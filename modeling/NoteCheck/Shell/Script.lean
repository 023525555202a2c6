/-
# Reading scripts

A script is read from left to right, without a separate list of tokens: a command that stands in
brackets or between reserved words is read where its first word shows what it is.
-/
import NoteCheck.Loop
import NoteCheck.Shell.Syntax
import NoteCheck.Text.Identifier
import NoteCheck.Text.Reading

namespace NoteCheck.Shell

open Text

/-- Why a text is no script. -/
inductive ScriptFault where
  | openQuote
  | badName
  | missing (close : String)
  /-- Something else stands where a certain word may have to stand. -/
  | unexpected (found : String) (expected : Option String)
  deriving DecidableEq, Repr

/-- The fault in words. -/
def ScriptFault.message : ScriptFault → String
  | openQuote => "Syntax error: Unterminated quoted string"
  | badName => "Syntax error: Bad for loop variable"
  | missing close => s!"Syntax error: Missing '{close}'"
  | unexpected found none => s!"Syntax error: {found} unexpected"
  | unexpected found (some expected) =>
    s!"Syntax error: {found} unexpected (expecting \"{expected}\")"

/-- Reading a script that has so many line breaks in all. -/
abbrev ScriptRead := ReaderT Nat (StateT (List Char) (Except (Nat × ScriptFault)))

namespace ScriptRead

/-- The number of the line that is being read. -/
def line : ScriptRead Nat := return (← read) + 1 - (← get).count '\n'

/-- There is a fault where reading has got to. -/
def fail {α : Type} (fault : ScriptFault) : ScriptRead α := do throw (← line, fault)

/-- Rounds as long as they take something from the text. -/
def loop {α β : Type} (round : α → ScriptRead (α ⊕ β)) (a : α) : ScriptRead β := do
  rounds (fail .openQuote) round ((← get).length + 1) a

end ScriptRead

open ScriptRead

/-! ## Words -/

/-- A character that ends a word. -/
def endsWord (c : Char) : Bool := " \t\n;&|<>()".toList.contains c

/-- A text up to the brackets and quotes that close it, the innermost one first. Quotes hide
brackets, and a backslash hides what follows it. -/
def enclosed? : List Char → List Char → Option (List Char × List Char)
  | _, [] => none
  | [], cs => some ([], cs)
  | close :: closes, c :: cs =>
    let consFirst (c : Char) := Option.map fun ((text, rest) : List Char × List Char) =>
      (c :: text, rest)
    if c = close then
      if closes.isEmpty then some ([], cs) else consFirst c (enclosed? closes cs)
    else if close = '\'' then consFirst c (enclosed? (close :: closes) cs)
    else
      match c, cs with
      | '\\', d :: cs => consFirst c (consFirst d (enclosed? (close :: closes) cs))
      | '$', '\x7b' :: cs =>
        consFirst c (consFirst '\x7b' (enclosed? ('\x7d' :: close :: closes) cs))
      | '$', '(' :: cs => consFirst c (consFirst '(' (enclosed? (')' :: close :: closes) cs))
      | '(', cs =>
        consFirst c (enclosed? (if close = ')' then ')' :: close :: closes else close :: closes) cs)
      | '"', cs => consFirst c (enclosed? ('"' :: close :: closes) cs)
      | '\'', cs =>
        consFirst c (enclosed? (if close = '"' then close :: closes else c :: close :: closes) cs)
      | c, cs => consFirst c (enclosed? (close :: closes) cs)

/-- Takes a text up to what closes it. -/
def enclosed (closes : List Char) (close : String) : ScriptRead (List Char) := do
  match enclosed? closes (← get) with
  | some (text, rest) => set rest; return text
  | none => fail (.missing close)

/-- Removes backslashes that hide a backquote, a dollar sign or a backslash. -/
def uncover : List Char → List Char
  | '\\' :: c :: cs =>
    if c = '`' ∨ c = '$' ∨ c = '\\' then c :: uncover cs else '\\' :: uncover (c :: cs)
  | c :: cs => c :: uncover cs
  | [] => []

/-- A piece after a dollar sign. -/
def afterDollar (isQuoted : Bool) : ScriptRead Piece := do
  if ← skip? ['(', '('] then
    let text ← enclosed [')', ')'] "))"
    return ⟨isQuoted, .formula, text.dropLast⟩
  else if ← skip? ['('] then return ⟨isQuoted, .output, ← enclosed [')'] ")"⟩
  else if ← skip? ['\x7b'] then return ⟨isQuoted, .parameter, ← enclosed ['\x7d'] "\x7d"⟩
  else
    match ← get with
    | c :: rest =>
      if c.isAlpha || c == '_' then return ⟨isQuoted, .parameter, ← takeWhile isIdentifierChar⟩
      else if c.isDigit || "@*#?-$!".toList.contains c then
        set rest
        return ⟨isQuoted, .parameter, [c]⟩
      else return ⟨isQuoted, .plain, ['$']⟩
    | [] => return ⟨isQuoted, .plain, ['$']⟩

/-- A piece after a dollar sign or a backquote, which may stand inside and outside of quotes. -/
def special? (isQuoted : Bool) : ScriptRead (Option Piece) := do
  if ← skip? ['$'] then return some (← afterDollar isQuoted)
  else if ← skip? ['`'] then
    match enclosed? ['`'] (← get) with
    | some (text, rest) =>
      set rest
      return some ⟨isQuoted, .output, uncover text⟩
    | none => fail (.missing "`")
  else return none

/-- The pieces up to the double quote that closes them, or up to the end of the text. -/
def quotedPieces (isWhole : Bool) : ScriptRead Word :=
  loop (fun word => do
    if let some piece ← special? true then return .inl (word ++ [piece])
    match ← get with
    | [] => if isWhole then return .inr word else fail .openQuote
    | '\\' :: c :: rest =>
      if c = '\n' then
        set rest
        return .inl word
      else if "$`\"\\".toList.contains c then
        set rest
        return .inl (word ++ [⟨true, .plain, [c]⟩])
      else
        set (c :: rest)
        return .inl (word ++ [⟨true, .plain, ['\\']⟩])
    | c :: rest =>
      if c = '"' ∧ !isWhole then
        set rest
        return .inr (if word.isEmpty then [⟨true, .plain, []⟩] else word)
      else
        set rest
        return .inl (word ++ [⟨true, .plain, [c]⟩])) []

/-- The pieces of a word. A word that is the whole text ends only with it. -/
def wordPieces (isWhole : Bool) : ScriptRead Word :=
  loop (fun word => do
    if let some piece ← special? false then return .inl (word ++ [piece])
    match ← get with
    | '\\' :: '\n' :: rest => set rest; return .inl word
    | '\\' :: c :: rest => set rest; return .inl (word ++ [⟨true, .plain, [c]⟩])
    | '\'' :: rest =>
      let text := rest.takeWhile (· != '\'')
      if text.length = rest.length then fail .openQuote
      else
        set (rest.drop (text.length + 1))
        return .inl (word ++ [⟨true, .plain, text⟩])
    | '"' :: rest => set rest; return .inl (word ++ (← quotedPieces false))
    | c :: rest =>
      if endsWord c && !isWhole then return .inr word
      else
        set rest
        return .inl (word ++ [⟨false, .plain, [c]⟩])
    | [] => return .inr word) []

/-- Passes over blanks, comments and line breaks after a backslash. -/
def blanks : ScriptRead Unit :=
  loop (fun _ => do
    if ← skip? [' '] then return .inl ()
    else if ← skip? ['\t'] then return .inl ()
    else if ← skip? ['\\', '\n'] then return .inl ()
    else
      if ← startsWith ['#'] then
        let _ ← takeWhile (· != '\n')
      return .inr ()) ()

/-- Passes over blanks, comments and line breaks. -/
def lineBreaks : ScriptRead Unit :=
  loop (fun _ => do
    blanks
    if ← skip? ['\n'] then return .inl () else return .inr ()) ()

/-! ## Redirections -/

/-- The word of a redirection. -/
def redirectionWord : ScriptRead Word := do
  blanks
  let word ← wordPieces false
  if word.isEmpty then fail (.unexpected "newline" none) else return word

/-- A redirection, if one stands there. -/
def redirection? : ScriptRead (Option Redirection) := do
  let cs ← get
  let digits := cs.takeWhile Char.isDigit
  set (cs.drop digits.length)
  let descriptor := (String.ofList digits).toNat?
  if ← skip? ['<'] then return some (.read (← redirectionWord))
  else if ← skip? ['>', '>'] then
    return some (.write (descriptor.getD 1) true (← redirectionWord))
  else if ← skip? ['>', '&'] then return some (.copy (descriptor.getD 1) (← redirectionWord))
  else if ← skip? ['>'] then
    let _ ← skip? ['|']
    return some (.write (descriptor.getD 1) false (← redirectionWord))
  else
    set cs
    return none

/-- The redirections that follow a command. -/
def redirections : ScriptRead (List Redirection) :=
  loop (fun found => do
    blanks
    match ← redirection? with
    | some redirection => return .inl (found ++ [redirection])
    | none => return .inr found) []

/-! ## Commands -/

/-- The words that have a meaning where a command begins. -/
def reservedWords : List String :=
  ["if", "then", "elif", "else", "fi", "for", "while", "until", "do", "done", "case", "esac",
    "in", "\x7b", "\x7d", "!"]

/-- The reserved word that comes next, if one does. -/
def reserved? : ScriptRead (Option String) := do
  blanks
  let word := String.ofList ((← get).takeWhile (!endsWord ·))
  return if reservedWords.contains word then some word else none

/-- Takes a word without quotes if it comes next. -/
def skipWord? (word : String) : ScriptRead Bool := do
  blanks
  if (← get).takeWhile (!endsWord ·) = word.toList then skip? word.toList else return false

/-- What comes next, as faults show it. -/
def nextShown : ScriptRead String := do
  blanks
  match ← get with
  | [] => return "end of file"
  | '\n' :: _ => return "newline"
  | c :: rest =>
    if endsWord c then
      let shown := if rest.head? = some c ∧ c ∈ [';', '&', '|'] then [c, c] else [c]
      return s!"\"{String.ofList shown}\""
    else return s!"\"{String.ofList ((c :: rest).takeWhile (!endsWord ·))}\""

/-- Something stands where it may not. -/
def unexpected {α : Type} (expected : Option String) : ScriptRead α := do
  let found ← nextShown
  fail (.unexpected found expected)

/-- Takes a word that has to come next. -/
def expectWord (word : String) : ScriptRead Unit := do
  if !(← skipWord? word) then unexpected (some word)

/-- The name to which a word begins to assign, and what is left of the word. -/
def assignment? (word : Word) : Option (String × Word) :=
  let isPlain (piece : Piece) := !piece.isQuoted && piece.source = .plain
  let name := (word.takeWhile fun p => isPlain p && p.text != ['=']).flatMap Piece.text
  match word.drop name.length with
  | ⟨false, .plain, ['=']⟩ :: value =>
    if isIdentifier name then some (String.ofList name, value) else none
  | _ => none

/-- A command of words and redirections. -/
def simple : ScriptRead Command := do
  let line ← line
  let command ← loop (fun command : Simple => do
    blanks
    if let some redirection ← redirection? then
      return .inl { command with redirections := command.redirections ++ [redirection] }
    let word ← wordPieces false
    if word.isEmpty then return .inr command
    match assignment? word with
    | some assignment =>
      if command.words.isEmpty then
        return .inl { command with assignments := command.assignments ++ [assignment] }
      else return .inl { command with words := command.words ++ [word] }
    | none => return .inl { command with words := command.words ++ [word] }) { line }
  if command = { line } then unexpected none else return .simple command

/-- The words of a loop over words. -/
def eachWords : ScriptRead (List Word) :=
  loop (fun words => do
    blanks
    let word ← wordPieces false
    if word.isEmpty then return .inr words else return .inl (words ++ [word])) []

/-- The patterns of a case. -/
def patterns : ScriptRead (List Word) := do
  blanks
  let _ ← skip? ['(']
  loop (fun words => do
    blanks
    let word ← wordPieces false
    if word.isEmpty then unexpected none
    blanks
    if ← skip? ['|'] then return .inl (words ++ [word])
    else if ← skip? [')'] then return .inr (words ++ [word])
    else unexpected (some ")")) []

section Nested

variable (commands : ScriptRead Command)

/-- Commands of which there has to be one, unless the text ends. -/
def someCommands : ScriptRead Command := do
  match ← commands with
  | .nothing => if (← get).isEmpty then return .nothing else unexpected none
  | command => return command

/-- What follows the word that begins a choice. -/
def afterIf : ScriptRead Command := do
  let arms ← loop (fun arms => do
    let test ← someCommands commands
    expectWord "then"
    let arms := arms ++ [(test, ← someCommands commands)]
    if ← skipWord? "elif" then return .inl arms else return .inr arms) []
  let otherwise ← if ← skipWord? "else" then someCommands commands else pure .nothing
  expectWord "fi"
  return arms.foldr (fun (test, body) otherwise => .choice test body otherwise) otherwise

/-- The body of a loop. -/
def loopBody : ScriptRead Command := do
  expectWord "do"
  let body ← someCommands commands
  expectWord "done"
  return body

/-- What follows the word that begins a loop over words. -/
def afterFor : ScriptRead Command := do
  blanks
  let name ← takeWhile isIdentifierChar
  if !isIdentifier name then fail .badName
  lineBreaks
  let words ← if ← skipWord? "in" then some <$> eachWords else pure none
  blanks
  let _ ← skip? [';']
  lineBreaks
  return .each (String.ofList name) words (← loopBody commands)

/-- What follows the word that begins a selection by patterns. -/
def afterCase : ScriptRead Command := do
  blanks
  let word ← wordPieces false
  lineBreaks
  expectWord "in"
  let arms ← loop (fun arms => do
    lineBreaks
    if ← skipWord? "esac" then return .inr arms
    else
      let patterns ← patterns
      let arms := arms ++ [(patterns, ← commands)]
      blanks
      if ← skip? [';', ';'] then return .inl arms
      else
        expectWord "esac"
        return .inr arms) []
  return arms.foldr (fun (patterns, body) otherwise => .select word patterns body otherwise)
    .nothing

/-- A command with redirections of its own after it. -/
def withRedirections (command : Command) : ScriptRead Command := do
  match ← redirections with
  | [] => return command
  | redirections => return .redirected redirections command

/-- The words with which commands begin. -/
def openingWords : List String := ["if", "for", "while", "until", "case", "\x7b"]

/-- A command that is no list. -/
def command : ScriptRead Command := do
  blanks
  if ← skip? ['('] then
    let command ← someCommands commands
    blanks
    if !(← skip? [')']) then unexpected (some ")")
    withRedirections (.apart command)
  else
    match ← reserved? with
    | none => simple
    | some word =>
      if !(openingWords.contains word) then unexpected none
      expectWord word
      withRedirections <| ← match word with
        | "if" => afterIf commands
        | "for" => afterFor commands
        | "case" => afterCase commands
        | "\x7b" => do
          let command ← someCommands commands
          expectWord "\x7d"
          pure command
        | word => do
          let test ← someCommands commands
          pure (.loop (word == "while") test (← loopBody commands))

/-- Commands with bars between them. -/
def pipeline : ScriptRead Command := do
  let isNegated ← skipWord? "!"
  let first ← command commands
  let whole ← loop (fun whole => do
    blanks
    if ← startsWith ['|', '|'] then return .inr whole
    else if ← skip? ['|'] then
      lineBreaks
      return .inl (.pipe whole (← command commands))
    else return .inr whole) first
  return if isNegated then .negation whole else whole

/-- Pipelines of which each depends on what the ones before it come to. -/
def conditional : ScriptRead Command := do
  let first ← pipeline commands
  loop (fun whole => do
    blanks
    if ← skip? ['&', '&'] then
      lineBreaks
      return .inl (.both whole (← pipeline commands))
    else if ← skip? ['|', '|'] then
      lineBreaks
      return .inl (.either whole (← pipeline commands))
    else return .inr whole) first

/-- The words that end a list of commands. -/
def closingWords : List String :=
  ["then", "elif", "else", "fi", "do", "done", "esac", "\x7d"]

/-- A list of commands, up to the end of the text or something that closes the list. -/
def commandList : ScriptRead Command := do
  loop (fun whole => do
    lineBreaks
    let isAtEnd := (← get).isEmpty || (← startsWith [')']) || (← startsWith [';', ';']) ||
      (← reserved?).any closingWords.contains
    if isAtEnd then return .inr whole
    else
      let command ← conditional commands
      let whole := match whole with
        | .nothing => command
        | whole => .sequence whole command
      blanks
      if ← startsWith [';', ';'] then return .inr whole
      else if ← skip? [';'] then return .inl whole
      else if ← skip? ['&'] then return .inl whole
      else if ← startsWith ['\n'] then return .inl whole
      else return .inr whole) .nothing

end Nested

/-- Commands with others inside them, at most to the given depth. -/
def commandsWithin : Nat → ScriptRead Command
  | 0 => unexpected none
  | depth + 1 => commandList (commandsWithin depth)

/-- Runs a reader on a whole text. -/
def readWhole {α : Type} (read : ScriptRead α) (text : List Char) :
    Except (Nat × ScriptFault) α :=
  ((read.run (text.count '\n')).run text).map Prod.fst

/-- The command that a script is. -/
def readScript (text : List Char) : Except (Nat × ScriptFault) Command :=
  readWhole (do
    let command ← commandsWithin (text.length + 1)
    if (← get).isEmpty then return command else unexpected none) text

/-- The word that a text is, read as if in double quotes or not. -/
def readWord (isQuoted : Bool) (text : List Char) : Except (Nat × ScriptFault) Word :=
  readWhole (if isQuoted then quotedPieces true else wordPieces true) text

end NoteCheck.Shell
