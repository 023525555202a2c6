/-
# Errors of the system

Why the system does not do what it is asked for: to read or write a file, to make a folder, to
start a program.
-/

namespace NoteCheck

/-- Why the system does not do what it is asked for. -/
inductive SystemError where
  | notFound
  | notPermitted
  | notAFolder
  | isAFolder
  /-- What is read is no text. -/
  | notText
  /-- A name or an argument holds a character that none can hold. -/
  | nullCharacter
  /-- Any other error, by its number and in words. -/
  | other (code : Nat) (reason : String)
  deriving DecidableEq, Repr

namespace SystemError

/-- What went wrong, in words. -/
def reason : SystemError → String
  | notFound => "No such file or directory"
  | notPermitted => "Permission denied"
  | notAFolder => "Not a directory"
  | isAFolder => "Is a directory"
  | notText => "stream did not contain valid UTF-8"
  | nullCharacter => "nul byte found in provided data"
  | other _ reason => reason

/-- The number of the error, where it has one. -/
def code? : SystemError → Option Nat
  | notFound => some 2
  | notPermitted => some 13
  | notAFolder => some 20
  | isAFolder => some 21
  | notText | nullCharacter => none
  | other code _ => some code

/-- The error in words, with its number. -/
def message (e : SystemError) : String :=
  match e.code? with
  | some code => s!"{e.reason} (os error {code})"
  | none => e.reason

end SystemError

end NoteCheck
