/-
# Token streams

Reading a list of tokens from left to right. The stream ends with the end of the text, which
reading never passes. Loops are bounded by the number of tokens that are left; a loop whose rounds
each take a token never reaches the bound.
-/
import NoteCheck.Code.SyntaxError
import NoteCheck.Code.Token
import NoteCheck.Loop

namespace NoteCheck.Code

/-- A list of tokens that is being read. -/
structure TokenStream where
  /-- The part of the text that the token read last takes. -/
  last : Span
  /-- The token to be read next. -/
  current : Token
  /-- The tokens after it. -/
  ahead : List Token
  deriving DecidableEq, Repr

namespace TokenStream

/-- A stream at the first of its tokens. -/
def ofTokens (first : Token) (others : List Token) : TokenStream := ⟨first.span, first, others⟩

/-- The kind of the token to be read next. -/
def kind (s : TokenStream) : TokenKind := s.current.kind

/-- The kind of a token further on; beyond the last one stands the end of the text. -/
def peek (s : TokenStream) : Nat → TokenKind
  | 0 => s.kind
  | n + 1 => (s.ahead[n]?.map Token.kind).getD .endOfFile

/-- The stream after the token to be read next. The end of the text stays where it is. -/
def tail (s : TokenStream) : TokenStream :=
  match s.kind, s.ahead with
  | .endOfFile, _ | _, [] => s
  | _, next :: ahead => ⟨s.current.span, next, ahead⟩

/-- The text has not ended. -/
def hasTokens (s : TokenStream) : Bool := s.kind != .endOfFile

/-- A bound on the rounds of a loop that takes a token in each. -/
def fuel (s : TokenStream) : Nat := s.ahead.length + 1

end TokenStream

/-- Why reading stops early. -/
inductive Halt where
  /-- The tokens are not in order. -/
  | fault (error : SyntaxError)
  /-- A bound on the number of rounds was reached. -/
  | exhausted
  deriving DecidableEq, Repr

/-- Reading a part of a list of tokens. -/
abbrev Parse := StateT TokenStream (Except Halt)

namespace Parse

variable {α β : Type}

/-- The kind of the token to be read next. -/
def kind : Parse TokenKind := return (← get).kind

/-- Reads a token, whatever it is. -/
def advance : Parse Token := do
  let stream ← get
  set stream.tail
  return stream.current

/-- From the start of one part of the text to the end of the token read last. -/
def spanFrom (start : Span) : Parse Span := return start.through (← get).last

/-- The token to be read next is out of place. -/
def unexpected : Parse α := do
  let token := (← get).current
  throw (.fault ⟨.unexpected token.shown, token.span.start⟩)

/-- The token to be read next is out of place, with a sentence on what could stand there. -/
def unexpectedFor (expectation : String) : Parse α := do
  let token := (← get).current
  throw (.fault ⟨.unexpectedFor token.shown expectation, token.span.start⟩)

/-- Reads a token of the given kind. -/
def expect (kind : TokenKind) : Parse Token := do
  if (← Parse.kind) = kind then advance else unexpected

/-- Reads a token of the given kind if it stands there. -/
def skip? (kind : TokenKind) : Parse Bool := do
  if (← Parse.kind) = kind then
    let _ ← advance
    return true
  else return false

/-! ## Loops -/

/-- Rounds until one of them ends with a result. -/
def loop (round : α → Parse (α ⊕ β)) (a : α) : Parse β := do
  rounds (throw .exhausted) round (← get).fuel a

/-- Items as long as one can begin. -/
def manyWhile (more : TokenStream → Bool) (item : Parse α) : Parse (List α) :=
  loop (fun found => do
    if more (← get) then return .inl (found ++ [← item]) else return .inr found) []

/-- Items after one that has been read, each after a comma. A comma before the end of the list
may be left over. -/
def afterCommas (atEnd : TokenKind → Bool) (item : Parse α) : Parse (List α) :=
  loop (fun found => do
    if !(← skip? .comma) then return .inr found
    else if atEnd (← kind) then return .inr found
    else return .inl (found ++ [← item])) []

/-- Items up to the given closing token, with commas between them. -/
def untilClosed (closing : TokenKind) (item : Parse α) : Parse (List α) :=
  loop (fun found => do
    if (← kind) = closing then return .inr found
    else
      let found := found ++ [← item]
      if ← skip? .comma then return .inl found else return .inr found) []

end Parse

end NoteCheck.Code
