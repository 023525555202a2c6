/-
# Expansion

A word becomes fields: its pieces get their texts from parameters, scripts and formulas, and texts
that come from elsewhere and are not quoted are split at blanks.
-/
import NoteCheck.Shell.Formula
import NoteCheck.Shell.Pattern
import NoteCheck.Shell.Script
import NoteCheck.Shell.State

namespace NoteCheck.Shell

/-- Fields that are being made: those that are complete, and the one that is not, if there is
one. -/
structure Fields where
  complete : List (List Glyph) := []
  current : Option (List Glyph) := none
  deriving DecidableEq, Repr

namespace Fields

/-- Adds glyphs to the current field. -/
def add (fields : Fields) (glyphs : List Glyph) : Fields :=
  { fields with current := some (fields.current.getD [] ++ glyphs) }

/-- Completes the current field. -/
def cut (fields : Fields) : Fields :=
  match fields.current with
  | some field => ⟨fields.complete ++ [field], none⟩
  | none => fields

/-- All fields. -/
def toList (fields : Fields) : List (List Glyph) := fields.cut.complete

/-- Adds a text that is split at blanks. -/
def addSplit (fields : Fields) (text : List Char) : Fields :=
  text.foldl (fun fields c =>
    if " \t\n".toList.contains c then fields.cut else fields.add [⟨c, false⟩]) fields

/-- Adds a text in quotes. -/
def addQuoted (fields : Fields) (text : List Char) : Fields := fields.add (text.map (⟨·, true⟩))

/-- Adds texts in quotes, each in a field of its own. -/
def addEach (fields : Fields) : List String → Fields
  | [] => fields
  | [text] => fields.addQuoted text.toList
  | text :: texts => ((fields.addQuoted text.toList).cut).addEach texts

end Fields

namespace Act

/-! ## Parameters -/

/-- What is done with the value of a parameter. -/
inductive Use where
  | value
  | length
  /-- Another word where there is no value, or where the value counts as none. -/
  | default (assigns : Bool) (word : List Char)
  /-- Another word where there is a value. -/
  | instead (word : List Char)
  /-- An error where there is no value. -/
  | required (word : List Char)
  | trim (cut : Cut) (pattern : List Char)
  deriving DecidableEq, Repr

/-- The name at the beginning of the text of a parameter. -/
def parameterName (text : List Char) : List Char :=
  match text with
  | c :: _ =>
    if c.isDigit then text.takeWhile Char.isDigit
    else if c.isAlpha || c == '_' then text.takeWhile Text.isIdentifierChar
    else if "@*#?-$!".toList.contains c then [c]
    else []
  | [] => []

/-- What the text after the name asks for, and whether an empty value counts as none. -/
def use? : List Char → Option (Use × Bool)
  | [] => some (.value, false)
  | ':' :: '-' :: word => some (.default false word, true)
  | '-' :: word => some (.default false word, false)
  | ':' :: '=' :: word => some (.default true word, true)
  | '=' :: word => some (.default true word, false)
  | ':' :: '+' :: word => some (.instead word, true)
  | '+' :: word => some (.instead word, false)
  | ':' :: '?' :: word => some (.required word, true)
  | '?' :: word => some (.required word, false)
  | '#' :: '#' :: pattern => some (.trim ⟨false, true⟩ pattern, false)
  | '#' :: pattern => some (.trim ⟨false, false⟩ pattern, false)
  | '%' :: '%' :: pattern => some (.trim ⟨true, true⟩ pattern, false)
  | '%' :: pattern => some (.trim ⟨true, false⟩ pattern, false)
  | _ => none

/-- The name of the parameter that a text describes, what is done with its value, and whether an
empty value counts as none. -/
def parameter? (text : List Char) : Option (String × Use × Bool) :=
  match text with
  | '#' :: c :: rest =>
    let name := parameterName (c :: rest)
    if name = c :: rest then some (String.ofList name, .length, false) else none
  | _ =>
    let name := parameterName text
    if name.isEmpty then none
    else (use? (text.drop name.length)).map fun (use, emptyIsNone) =>
      (String.ofList name, use, emptyIsNone)

/-- The value of a parameter, if it has one. -/
def parameterValue? (state : State) (name : String) : Option String :=
  let all := if state.arguments.isEmpty then none else some (" ".intercalate state.arguments)
  match name with
  | "@" => all
  | "*" => all
  | "#" => some (toString state.arguments.length)
  | "?" => some (toString state.status)
  | "$" => some processNumber
  | "-" => some ""
  | "!" => none
  | "0" => some state.name
  | name =>
    match name.toNat? with
    | some n => state.arguments[n - 1]?
    | none => state.values.lookup name

/-- Adds the value of a parameter. -/
def addValue (state : State) (isQuoted splits : Bool) (name value : String) (fields : Fields) :
    Fields :=
  if name = "@" ∧ isQuoted ∧ splits then fields.addEach state.arguments
  else if isQuoted then fields.addQuoted value.toList
  else if splits then
    if name = "@" ∨ name = "*" then
      state.arguments.foldl (fun fields text => (fields.addSplit text.toList).cut) fields
    else fields.addSplit value.toList
  else fields.add (value.toList.map (⟨·, false⟩))

/-! ## Words -/

/-- The value of a variable as a number. -/
def variableNumber (state : State) (name : String) : Int :=
  let text := ((parameterValue? state name).getD "").toList
  match text with
  | '-' :: digits => -((Formula.number? digits).getD 0)
  | digits => (Formula.number? digits).getD 0

/-- The text of fields, with blanks between them. -/
def joined (fields : Fields) : List Char :=
  (" ".intercalate (fields.toList.map Glyph.plainText)).toList

/-- What is read, or the end of the script where it is no script. -/
def orAbort {α : Type} (read : Except (Nat × ScriptFault) α) : Act α :=
  match read with
  | .ok a => return a
  | .error (line, fault) => do
    modify ({ · with line })
    abort fault.message

section Words

variable (run : List Char → Act String) (splits : Bool)

/-- Adds the fields of a word, in which words stand inside each other at most to the given
depth. -/
def addWord : Nat → Word → Fields → Act Fields
  | 0, _, _ => abort "Bad substitution"
  | depth + 1, word, fields => word.foldlM (fun fields piece => do
    let isQuoted := piece.isQuoted
    let add (text : String) : Fields :=
      if isQuoted then fields.addQuoted text.toList
      else if splits then fields.addSplit text.toList
      else fields.add (text.toList.map (⟨·, false⟩))
    match piece.source with
    | .plain =>
      if isQuoted then return fields.addQuoted piece.text
      else return fields.add (piece.text.map (⟨·, false⟩))
    | .output => return add (← run piece.text)
    | .formula =>
      let formula := joined (← addWord depth (← orAbort (readWord true piece.text)) {})
      match Formula.value? (variableNumber (← get)) formula with
      | some value => return add (toString value)
      | none => abort s!"arithmetic expression: expecting primary: \"{String.ofList formula}\""
    | .parameter =>
      match parameter? piece.text with
      | none => abort "Bad substitution"
      | some (name, use, emptyIsNone) =>
        let state ← get
        let value := (parameterValue? state name).filter fun value =>
          !(emptyIsNone && value.isEmpty)
        let other (text : List Char) (fields : Fields) : Act Fields := do
          addWord depth (← orAbort (readWord isQuoted text)) fields
        let own := addValue state isQuoted splits name (value.getD "") fields
        match use with
        | .value => return own
        | .length => return add (toString (Text.Utf8.encode (value.getD "")).length)
        | .default assigns word =>
          if value.isSome then return own
          else if assigns then
            let text := String.ofList (joined (← other word {}))
            setVariable name text
            return add text
          else other word fields
        | .instead word =>
          if value.isSome then other word fields
          else if isQuoted && name != "@" then return fields.addQuoted []
          else return fields
        | .required word =>
          if value.isSome then return own
          else
            let given := String.ofList (joined (← other word {}))
            let state := if emptyIsNone then "not set or null" else "not set"
            let message := if given.isEmpty then s!"parameter {state}" else given
            abort s!"{name}: {message}"
        | .trim cut pattern =>
          let pattern ← addWord depth (← orAbort (readWord false pattern)) {}
          return add (String.ofList (cut.apply pattern.toList.flatten (value.getD "").toList)))
    fields

end Words

end Act

end NoteCheck.Shell
