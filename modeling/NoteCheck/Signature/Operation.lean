/-
# Operations

Operations are declared in a section of a note, between backticks, as in
`paint: Grid × Color -> Grid`. The domains before the last arrow are the parameters, and what
stands after it is the result. Of two declarations of one name the later counts.
-/
import NoteCheck.Note.Section
import NoteCheck.Signature.Denotation
import NoteCheck.Sorted

namespace NoteCheck.Signature

/-- An operation on typed values. -/
structure Operation where
  name : String
  parameters : List TypeExpr
  result : TypeExpr
  deriving Repr, BEq

namespace Operation

/-- The arrow before a result, and between groups of parameters. -/
def arrow : List Char := ['-', '>']

/-- The mark between parameters. -/
def times : List Char := ['×']

/-- The types of the parameters in a group. An empty domain and the unit declare none. -/
def domains (group : List Char) : List TypeExpr :=
  (((TopLevel.split times group).map Text.trim).filter fun domain =>
    !domain.isEmpty && domain != ['(', ')']).map TypeExpr.ofChars

/-- The operation that a text declares: a name before a colon, domains, and a codomain after the
last arrow outside brackets. -/
def ofDeclaration? (text : List Char) : Option Operation :=
  match text.dropWhile (· != ':') with
  | [] => none
  | _ :: signature =>
    let name := Text.trim (text.takeWhile (· != ':'))
    let segments := TopLevel.split arrow signature
    let codomain := segments.getLastD []
    if Text.isIdentifier name && 1 < segments.length && !(Text.trim codomain).isEmpty then
      some ⟨String.ofList name, segments.dropLast.flatMap domains, .ofChars codomain⟩
    else none

/-- The identifiers in the types of an operation. -/
def typeNames (operation : Operation) : List String :=
  operation.parameters.flatMap TypeExpr.names ++ operation.result.names

end Operation

/-- The texts between backticks in a line, given the pieces of the line after its first backtick.
Backticks side by side hold nothing, and the second may open a text. -/
def quotedPieces : List (List Char) → List (List Char)
  | piece :: next :: rest =>
    if piece.isEmpty then quotedPieces (next :: rest) else piece :: quotedPieces rest
  | _ => []

/-- The texts between backticks in a line. -/
def quotedTexts (line : List Char) : List (List Char) :=
  quotedPieces (Text.piecesBetween (· == '`') line).tail

/-- What a note declares. -/
structure Declarations where
  /-- The operations, sorted by name. -/
  operations : List Operation
  /-- The identifiers in the types of all declarations, sorted. -/
  names : List String
  deriving Repr, BEq

namespace Declarations

/-- The declarations with one more operation. -/
def add (declarations : Declarations) (operation : Operation) : Declarations :=
  ⟨Sorted.put Operation.name operation declarations.operations,
    operation.typeNames.foldl (fun names name => Sorted.insert name names) declarations.names⟩

/-- The operations that lines declare, from the first on. -/
def declared (lines : List (List Char)) : List Operation :=
  (lines.flatMap quotedTexts).filterMap Operation.ofDeclaration?

/-- The declarations in lines. -/
def ofLines (lines : List (List Char)) : Declarations :=
  (declared lines).foldl add ⟨[], []⟩

end Declarations

/-- The declarations in the section that a marker introduces; without the section there are
none. -/
def readDeclarations (text marker : String) : Declarations :=
  Declarations.ofLines ((Note.sectionLines? text.toList marker.toList).getD [])

end NoteCheck.Signature
