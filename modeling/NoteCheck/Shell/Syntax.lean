/-
# Scripts

What a shell script is made of. A word is a list of pieces; what a piece takes from elsewhere, such
as the output of a script, is kept as text and read when the piece is needed.
-/

namespace NoteCheck.Shell

/-- Where a piece of a word gets its text from. -/
inductive Source where
  /-- The piece stands for itself. -/
  | plain
  /-- A parameter, with what is to be done with its value. -/
  | parameter
  /-- The output of a script. -/
  | output
  /-- The value of a formula. -/
  | formula
  deriving DecidableEq, Repr

/-- A piece of a word. Quotes keep its text from being split and from being a pattern. -/
structure Piece where
  isQuoted : Bool
  source : Source
  text : List Char
  deriving DecidableEq, Repr

/-- A word as it is written. -/
abbrev Word := List Piece

/-- What a redirection does with a descriptor. -/
inductive Redirection where
  /-- Input comes from a file. -/
  | read (file : Word)
  /-- Output on a descriptor goes to a file, at its end or in place of what it holds. -/
  | write (descriptor : Nat) (atEnd : Bool) (file : Word)
  /-- Output on a descriptor goes where that on another goes. -/
  | copy (descriptor : Nat) (target : Word)
  deriving DecidableEq, Repr

/-- Assignments, words and redirections on a line. -/
structure Simple where
  line : Nat := 1
  assignments : List (String × Word) := []
  words : List Word := []
  redirections : List Redirection := []
  deriving DecidableEq, Repr

/-- A command. -/
inductive Command where
  | nothing
  | simple (command : Simple)
  /-- One command after the other. -/
  | sequence (first second : Command)
  /-- The second command if the first one succeeds. -/
  | both (first second : Command)
  /-- The second command if the first one fails. -/
  | either (first second : Command)
  | negation (command : Command)
  /-- The second command reads what the first one writes. -/
  | pipe (first second : Command)
  | choice (test body otherwise : Command)
  /-- The body as long as the test succeeds or, as the case may be, fails. -/
  | loop (goesOn : Bool) (test body : Command)
  /-- The body for each of some words, or for each argument. -/
  | each (name : String) (words : Option (List Word)) (body : Command)
  /-- The body if a word matches one of some patterns. -/
  | select (word : Word) (patterns : List Word) (body otherwise : Command)
  /-- A command whose changes of variables do not last. -/
  | apart (command : Command)
  | redirected (redirections : List Redirection) (command : Command)
  deriving Repr

end NoteCheck.Shell
