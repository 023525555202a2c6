/-
# Tools

The programs that a script calls. A tool reads files and its input, and what it does is what it
writes, in order, and its status.
-/
import NoteCheck.Files.Tree
import NoteCheck.Shell.Escape

namespace NoteCheck.Shell

open Files

/-- Where a tool writes. -/
inductive Channel where
  | output
  | errors
  deriving DecidableEq, Repr

/-- What a tool does. -/
structure Effect where
  status : Nat := 0
  writes : List (Channel × List UInt8) := []
  deriving DecidableEq, Repr

/-- What a tool finds when it starts. -/
structure Surroundings where
  /-- The name and the line of the script, for errors. -/
  place : String
  /-- The bytes of the file at a path. -/
  file : Path → Except SystemError (List UInt8)
  /-- The names in the folder at a path, sorted. -/
  names : Path → List String
  input : List UInt8

/-- A tool at work. -/
abbrev Tool := ReaderT Surroundings (StateM Effect)

namespace Tool

/-- Writes bytes. -/
def write (channel : Channel) (bytes : List UInt8) : Tool Unit :=
  modify fun effect => { effect with writes := effect.writes ++ [(channel, bytes)] }

/-- Writes a text as output. -/
def print (text : String) : Tool Unit := write .output (Text.Utf8.encode text)

/-- Ends with a status, unless there is one already. -/
def finish (status : Nat) : Tool Unit :=
  modify fun effect => if effect.status = 0 then { effect with status } else effect

/-- Writes an error of a program on a line. -/
def complain (message : String) : Tool Unit := write .errors (Text.Utf8.encode (message ++ "\n"))

/-- Writes an error of a command of the shell itself on a line. -/
def complainHere (message : String) : Tool Unit := do
  complain s!"{(← read).place}: {message}"

/-- The characters with a meaning in scripts. -/
def specialChars : List Char := " \t\n!\"#$&'()*;<=>?[\\]^`\x7b|\x7d~".toList

/-- A path as errors show it: in quotes if it is empty or has characters with a meaning in
scripts. -/
def quotedPath (path : Path) : String :=
  if path.isEmpty || path.toList.any specialChars.contains then s!"'{path}'" else path

/-- The bytes of a file, or of the input for a dash. Where there is no such file, the error is
written. -/
def fileOf (tool : String) (path : Path) : Tool (Option (List UInt8)) := do
  if path = "-" then return some (← read).input
  match (← read).file path with
  | .ok bytes => return some bytes
  | .error e =>
    complain s!"{tool}: {quotedPath path}: {e.reason}"
    finish 1
    return none

/-! ## Options -/

/-- Arguments apart into options and others. After two dashes there are no options. -/
def options : List String → List String × List String
  | [] => ([], [])
  | "--" :: arguments => ([], arguments)
  | argument :: arguments =>
    let (found, others) := options arguments
    if argument.startsWith "-" && argument != "-" then (argument :: found, others)
    else (found, argument :: others)

/-- The letters of an option, where a long option stands for letters. -/
def letters (long : List (String × String)) (option : String) : List Char :=
  ((long.lookup option).getD (String.ofList (option.toList.drop 1))).toList

/-- Options as letters, or the first one that is none of them, in words. -/
def chosen (known : String) (long : List (String × String)) (found : List String) :
    Except String (List Char) := do
  let letters := found.map fun option => (option, letters long option)
  for (option, letters) in letters do
    if letters.contains '-' then throw s!"unrecognized option '{option}'"
    if let some letter := letters.find? (!known.toList.contains ·) then
      throw ("invalid option -- '" ++ letter.toString ++ "'")
  return letters.flatMap Prod.snd

/-- Writes that an option is unknown. -/
def complainOfOption (tool fault : String) : Tool Unit := do
  complain s!"{tool}: {fault}"
  complain s!"Try '{tool} --help' for more information."
  finish 1

/-! ## Joining files -/

/-- How lines are shown. -/
structure Listing where
  numbersAll : Bool
  numbersFilled : Bool
  squeezes : Bool
  marksEnds : Bool
  marksTabs : Bool
  marksOthers : Bool
  deriving DecidableEq, Repr

/-- How far the listing of lines has got. -/
structure ListingState where
  line : Nat := 0
  isAtStart : Bool := true
  emptyLines : Nat := 0
  deriving DecidableEq, Repr

/-- A number with blanks before it, up to a width. -/
def padded (width : Nat) (n : Nat) : String :=
  let digits := toString n
  String.ofList (List.replicate (width - digits.length) ' ') ++ digits

/-- A byte that is not shown as itself. -/
def marked (byte : UInt8) : List UInt8 :=
  let low (byte : UInt8) : List UInt8 :=
    if byte < 32 then [94, byte + 64] else if byte = 127 then [94, 63] else [byte]
  if byte < 128 then low byte else [77, 45] ++ low (byte - 128)

/-- One more byte as it is listed, and how far the listing has got then. -/
def Listing.step (listing : Listing) (state : ListingState) (byte : UInt8) :
    List UInt8 × ListingState :=
  let isBreak := byte = 10
  if isBreak && state.isAtStart && listing.squeezes && 0 < state.emptyLines then ([], state)
  else
    let hasNumber := state.isAtStart &&
      if listing.numbersFilled then !isBreak else listing.numbersAll
    let line := if hasNumber then state.line + 1 else state.line
    let number := if hasNumber then Text.Utf8.encode (padded 6 line ++ "\t") else []
    let shown : List UInt8 :=
      if isBreak then if listing.marksEnds then [36, 10] else [10]
      else if byte = 9 then if listing.marksTabs then [94, 73] else [9]
      else if listing.marksOthers then marked byte
      else [byte]
    let emptyLines := if isBreak && state.isAtStart then state.emptyLines + 1 else 0
    (number ++ shown, { line, isAtStart := isBreak, emptyLines })

/-- Bytes as they are listed, and how far the listing has got then. -/
def Listing.render (listing : Listing) (state : ListingState) :
    List UInt8 → List UInt8 × ListingState
  | [] => ([], state)
  | byte :: bytes =>
    let (shown, state) := listing.step state byte
    let (others, state) := listing.render state bytes
    (shown ++ others, state)

/-- Joins files. -/
def cat (arguments : List String) : Tool Unit := do
  let long := [("--number", "n"), ("--number-nonblank", "b"), ("--squeeze-blank", "s"),
    ("--show-ends", "E"), ("--show-tabs", "T"), ("--show-nonprinting", "v"), ("--show-all", "A")]
  let (found, files) := options arguments
  match chosen "nbsETvAetu" long found with
  | .error fault => complainOfOption "cat" fault
  | .ok found =>
    let has (letters : String) := letters.toList.any found.contains
    let listing : Listing := ⟨has "n", has "b", has "s", has "EAe", has "TAt", has "vAet"⟩
    let _ ← (if files.isEmpty then ["-"] else files).foldlM (fun state path => do
      match ← fileOf "cat" path with
      | none => pure state
      | some bytes =>
        let (shown, state) := listing.render state bytes
        write .output shown
        pure state) ({} : ListingState)

/-! ## Counting -/

/-- The numbers of line breaks, words, characters and bytes. -/
structure Counts where
  lines : Nat := 0
  words : Nat := 0
  characters : Nat := 0
  bytes : Nat := 0
  deriving DecidableEq, Repr

namespace Counts

/-- A byte between words. -/
def isSpace (byte : UInt8) : Bool := byte = 32 || (9 ≤ byte && byte ≤ 13)

/-- The number of words of bytes, of which the one before may belong to a word. -/
def wordsAfter (isInWord : Bool) : List UInt8 → Nat
  | [] => 0
  | byte :: bytes =>
    let isInside := !isSpace byte
    (if isInside && !isInWord then 1 else 0) + wordsAfter isInside bytes

/-- The counts of bytes. -/
def ofBytes (bytes : List UInt8) : Counts :=
  ⟨bytes.count 10, wordsAfter false bytes, (bytes.filter fun b => b < 128 || 192 ≤ b).length,
    bytes.length⟩

/-- The sums of counts. -/
def add (a b : Counts) : Counts :=
  ⟨a.lines + b.lines, a.words + b.words, a.characters + b.characters, a.bytes + b.bytes⟩

/-- The counts that letters ask for, on a line. -/
def render (counts : Counts) (letters : List Char) (width : Nat) (name : Option String) : String :=
  let chosen := [('l', counts.lines), ('w', counts.words), ('m', counts.characters),
    ('c', counts.bytes)].filter fun (letter, _) => letters.contains letter
  " ".intercalate (chosen.map (padded width ·.2) ++ name.toList) ++ "\n"

end Counts

/-- Counts lines, words and bytes of files. -/
def wc (arguments : List String) : Tool Unit := do
  let long := [("--lines", "l"), ("--words", "w"), ("--chars", "m"), ("--bytes", "c")]
  let (found, files) := options arguments
  match chosen "lwmc" long found with
  | .error fault => complainOfOption "wc" fault
  | .ok found =>
    let chosen := if found.isEmpty then "lwc".toList else found.eraseDups
    let counted ← (if files.isEmpty then ["-"] else files).filterMapM fun path => do
      return (← fileOf "wc" path).map fun bytes => (path, Counts.ofBytes bytes)
    let total := (counted.map Prod.snd).foldl Counts.add {}
    let width :=
      if files.length ≤ 1 && chosen.length = 1 then 1
      else if files.isEmpty || files.contains "-" then 7
      else (toString total.bytes).length
    for (path, counts) in counted do
      print (counts.render chosen width (if files.isEmpty then none else some path))
    if 1 < files.length then print (total.render chosen width (some "total"))

/-! ## Beginnings and ends of files -/

/-- The lines of bytes, with their line breaks. -/
def byteLines : List UInt8 → List (List UInt8)
  | [] => []
  | byte :: bytes =>
    if byte = 10 then [byte] :: byteLines bytes
    else
      match byteLines bytes with
      | [] => [[byte]]
      | line :: lines => (byte :: line) :: lines

/-- How much of a file is shown: a number of lines or of bytes, perhaps with a sign. -/
structure Extent where
  isBytes : Bool := false
  sign : Option Char := none
  count : Nat := 10
  deriving DecidableEq, Repr

/-- The extent that a text with a sign describes. -/
def Extent.ofText? (isBytes : Bool) (text : List Char) : Option Extent :=
  match text with
  | '-' :: digits => (String.ofList digits).toNat?.map (⟨isBytes, some '-', ·⟩)
  | '+' :: digits => (String.ofList digits).toNat?.map (⟨isBytes, some '+', ·⟩)
  | digits => (String.ofList digits).toNat?.map (⟨isBytes, none, ·⟩)

/-- Arguments apart into an extent, if there is one, and files. -/
def extent : List String → Option Extent × List String
  | [] => (none, [])
  | "--" :: files => (none, files)
  | [file] =>
    match file.toList with
    | '-' :: 'n' :: text => (Extent.ofText? false text, [])
    | '-' :: 'c' :: text => (Extent.ofText? true text, [])
    | '-' :: c :: text => (Extent.ofText? false (c :: text), [])
    | _ => (none, [file])
  | first :: second :: rest =>
    match first.toList with
    | ['-', 'n'] =>
      let (last, files) := extent rest
      (last <|> Extent.ofText? false second.toList, files)
    | ['-', 'c'] =>
      let (last, files) := extent rest
      (last <|> Extent.ofText? true second.toList, files)
    | '-' :: 'n' :: text =>
      let (last, files) := extent (second :: rest)
      (last <|> Extent.ofText? false text, files)
    | '-' :: 'c' :: text =>
      let (last, files) := extent (second :: rest)
      (last <|> Extent.ofText? true text, files)
    | '-' :: c :: text =>
      let (last, files) := extent (second :: rest)
      (last <|> Extent.ofText? false (c :: text), files)
    | _ =>
      let (last, files) := extent (second :: rest)
      (last, first :: files)

/-- Shows a part of each file. -/
def parts (tool : String) (choose : Extent → List (List UInt8) → List (List UInt8))
    (arguments : List String) : Tool Unit := do
  let (extent, files) := extent arguments
  let extent := extent.getD {}
  let mut isFirst := true
  for path in if files.isEmpty then ["-"] else files do
    match ← fileOf tool path with
    | none => pure ()
    | some bytes =>
      let name := if path = "-" then "standard input" else path
      let gap := if isFirst then "" else "\n"
      if 1 < files.length then print s!"{gap}==> {name} <==\n"
      isFirst := false
      let units := if extent.isBytes then bytes.map ([·]) else byteLines bytes
      write .output (choose extent units).flatten

/-- Shows the beginnings of files. -/
def head : List String → Tool Unit :=
  parts "head" fun extent units =>
    units.take (if extent.sign = some '-' then units.length - extent.count else extent.count)

/-- Shows the ends of files. -/
def tail : List String → Tool Unit :=
  parts "tail" fun extent units =>
    units.drop (if extent.sign = some '+' then extent.count - 1 else units.length - extent.count)

/-- Shows the lines of files in the order of their bytes, or backwards. -/
def sort (arguments : List String) : Tool Unit := do
  let (found, files) := options arguments
  match chosen "ru" [("--reverse", "r"), ("--unique", "u")] found with
  | .error fault => complainOfOption "sort" fault
  | .ok found =>
    let contents ← (if files.isEmpty then ["-"] else files).filterMapM (fileOf "sort")
    let lines := contents.flatMap fun bytes =>
      (byteLines bytes).map fun line => line.filter (· != 10)
    let lines := lines.mergeSort (· ≤ ·)
    let lines := if found.contains 'u' then lines.eraseDups else lines
    let lines := if found.contains 'r' then lines.reverse else lines
    write .output (lines.flatMap (· ++ [10]))

/-! ## Names of files -/

/-- A path without slashes at its end. -/
def trimmed (path : List Char) : List Char :=
  let trimmed := (path.reverse.dropWhile (· == '/')).reverse
  if trimmed.isEmpty && !path.isEmpty then ['/'] else trimmed

/-- The name at the end of a path, without an ending. -/
def baseName (path ending : List Char) : List Char :=
  let path := trimmed path
  let name := if path = ['/'] then path else (path.reverse.takeWhile (· != '/')).reverse
  if ending.isSuffixOf name && name != ending then name.take (name.length - ending.length)
  else name

/-- The path of the folder of a path. -/
def folderName (path : List Char) : List Char :=
  let path := trimmed path
  if path = ['/'] then path
  else
    let folder := (path.reverse.dropWhile (· != '/')).reverse
    if folder.isEmpty then ['.'] else trimmed folder

/-- Writes that an operand is missing. -/
def complainOfMissing (tool : String) : Tool Unit := do
  complain s!"{tool}: missing operand"
  complain s!"Try '{tool} --help' for more information."
  finish 1

/-- Shows the name at the end of a path. -/
def basename (arguments : List String) : Tool Unit := do
  let arguments := if arguments.head? = some "--" then arguments.tail else arguments
  let named (ending path : String) :=
    print (String.ofList (baseName path.toList ending.toList) ++ "\n")
  match arguments with
  | [] => complainOfMissing "basename"
  | "-s" :: ending :: paths => paths.forM (named ending)
  | "-a" :: paths => paths.forM (named "")
  | [path] => named "" path
  | [path, ending] => named ending path
  | _ :: _ :: extra :: _ =>
    complain s!"basename: extra operand '{extra}'"
    complain "Try 'basename --help' for more information."
    finish 1

/-- Shows the folder of a path. -/
def dirname (arguments : List String) : Tool Unit := do
  match if arguments.head? = some "--" then arguments.tail else arguments with
  | [] => complainOfMissing "dirname"
  | paths => paths.forM fun path => print (String.ofList (folderName path.toList) ++ "\n")

/-- Lists paths of files, and names in folders without those that begin with a dot. -/
def ls (arguments : List String) : Tool Unit := do
  let paths := (options arguments).2
  let paths := (if paths.isEmpty then ["."] else paths).mergeSort (· ≤ ·)
  let surroundings ← read
  for path in paths do
    match surroundings.file path with
    | .ok _ => print (path ++ "\n")
    | .error .isAFolder => pure ()
    | .error e =>
      complain s!"ls: cannot access '{path}': {e.reason}"
      finish 2
  for path in paths do
    if let .error .isAFolder := surroundings.file path then
      let shown := (surroundings.names path).filter (·.toList.head? != some '.')
      if 1 < paths.length then print s!"{path}:\n"
      print (String.join (shown.map (· ++ "\n")))

end Tool

end NoteCheck.Shell
