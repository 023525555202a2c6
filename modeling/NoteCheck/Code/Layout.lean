/-
# Tokens with layout

A text is read lexeme by lexeme. On the way the reader keeps the number of open brackets, inside
which line breaks mean nothing, and the indentations of the blocks that are open, from which it
makes the marks of layout. The main statement, `Reader.length_rest_step`, says that every step
shortens the text, so that reading ends.
-/
import NoteCheck.Code.Lexeme
import NoteCheck.Code.SyntaxError

namespace NoteCheck.Code

/-- A text that is being read, and what the marks of layout depend on. -/
structure Reader where
  /-- The text that is still to be read. -/
  rest : List Char
  /-- Where that text begins. -/
  here : Position := .start
  /-- The number of open brackets. -/
  depth : Nat := 0
  /-- The indentations of the open blocks, the innermost first. -/
  blocks : List Nat := []
  /-- The text begins a line whose indentation has not been looked at. -/
  atLineStart : Bool := true
  /-- No token has been found yet, or the last one was the end of a line. -/
  betweenLines : Bool := true
  deriving DecidableEq, Repr

namespace Reader

/-- A reader at the beginning of a text. -/
def ofText (code : String) : Reader := { rest := code.toList }

/-- The indentation of the innermost open block. -/
def indentation (r : Reader) : Nat := r.blocks.headD 0

/-- A mark of layout, which stands for no text. -/
def marker (r : Reader) (kind : TokenKind) : Token := ⟨kind, "", .ofText r.here []⟩

/-- Goes on to the given rest of the text, past the given piece. -/
def past (r : Reader) (piece rest : List Char) : Reader :=
  { r with rest, here := r.here.advance piece }

/-! ## Indentation -/

/-- A character of which indentation is made. -/
def isIndent (c : Char) : Bool := c == ' ' || c == '\t' || c == '\x0c'

/-- The width of an indentation: a tab goes on to the next multiple of eight, and a form feed
begins again. -/
def indentWidth (blanks : List Char) : Nat :=
  blanks.foldl (fun width c =>
    if c = '\t' then (width / 8 + 1) * 8 else if c = '\x0c' then 0 else width + 1) 0

/-- What follows the indentation of a line without tokens. -/
def isBlankLine : List Char → Bool
  | [] | '\n' :: _ | '\r' :: '\n' :: _ | '#' :: _ => true
  | _ => false

/-- Opens or closes blocks so that the innermost open one has the given indentation. -/
def enterBlock (r : Reader) (width : Nat) : Except SyntaxError (List Token × Reader) :=
  if r.indentation < width then
    .ok ([r.marker .indent],
      { r with blocks := width :: r.blocks, betweenLines := false })
  else
    let closed := r.blocks.takeWhile (width < ·)
    let blocks := r.blocks.dropWhile (width < ·)
    if blocks.headD 0 = width then
      .ok (closed.map fun _ => r.marker .dedent,
        { r with blocks, betweenLines := r.betweenLines && closed.isEmpty })
    else .error ⟨.inconsistentIndentation, r.here⟩

/-- Reads the indentation of a line. A line without tokens opens and closes nothing. -/
def indent (r : Reader) : Except SyntaxError (List Token × Reader) :=
  let blanks := r.rest.takeWhile isIndent
  let r := { r.past blanks (r.rest.dropWhile isIndent) with atLineStart := false }
  if isBlankLine r.rest then .ok ([], r) else r.enterBlock (indentWidth blanks)

/-- Reads the indentation where there is one to read. -/
def enterLine (r : Reader) : Except SyntaxError (List Token × Reader) :=
  if r.atLineStart && r.depth == 0 then r.indent else .ok ([], r)

/-! ## Lexemes -/

/-- The part of the text that a token takes. String literals may go over several lines; every
other token stays on one, and its end counts characters. -/
def spanOf (r : Reader) (kind : TokenKind) (text : List Char) : Span :=
  if kind = .string ∨ kind = .formattedString then ⟨r.here, r.here.advance text⟩
  else .ofText r.here text

/-- Takes up a lexeme, with the tokens that come of it. The end of a line counts only after a
token and outside brackets. -/
def take (r : Reader) (l : Lexeme) (rest : List Char) : List Token × Reader :=
  let next := r.past l.text rest
  match l with
  | .token kind text =>
    ([⟨kind, String.ofList text, r.spanOf kind text⟩],
      { next with depth := kind.depthAfter r.depth, betweenLines := false })
  | .lineBreak _ =>
    let outside := r.depth == 0
    if outside && !r.betweenLines then
      ([⟨.newline, "\n", .ofText r.here []⟩],
        { next with atLineStart := outside, betweenLines := true })
    else ([], { next with atLineStart := outside })
  | .gap _ => ([], next)

/-- Reads a lexeme, if there is text left. -/
def lexeme (r : Reader) : Except SyntaxError (List Token × Reader) :=
  match Lexeme.next? r.rest, r.rest with
  | some (l, rest), _ => .ok (r.take l rest)
  | none, [] => .ok ([], r)
  | none, c :: _ =>
    let fault := if c = '"' ∨ c = '\'' then .unterminatedString else .unrecognised c
    .error ⟨fault, r.here⟩

/-- Reads on by one lexeme, and before it by the indentation of its line. -/
def step (r : Reader) : Except SyntaxError (List Token × Reader) := do
  let (layout, r) ← r.enterLine
  let (tokens, r) ← r.lexeme
  return (layout ++ tokens, r)

/-- The marks at the end of the text: the last line ends, and all blocks close. -/
def finish (r : Reader) : List Token :=
  (if r.betweenLines then [] else [r.marker .newline]) ++
    r.blocks.map (fun _ => r.marker .dedent) ++ [r.marker .endOfFile]

/-! ## Reading ends -/

theorem rest_enterBlock {r r' : Reader} {width : Nat} {tokens : List Token}
    (h : r.enterBlock width = .ok (tokens, r')) : r'.rest = r.rest := by
  unfold enterBlock at h
  split at h
  · obtain ⟨-, rfl⟩ := Prod.mk.inj (Except.ok.inj h)
    rfl
  · dsimp only at h
    split at h
    · obtain ⟨-, rfl⟩ := Prod.mk.inj (Except.ok.inj h)
      rfl
    · simp at h

/-- Reading an indentation does not lengthen the text. -/
theorem length_rest_enterLine {r r' : Reader} {tokens : List Token}
    (h : r.enterLine = .ok (tokens, r')) : r'.rest.length ≤ r.rest.length := by
  unfold enterLine at h
  split at h
  · have hle : (r.rest.dropWhile isIndent).length ≤ r.rest.length :=
      (List.dropWhile_suffix _).length_le
    unfold indent at h
    dsimp only at h
    split at h
    · obtain ⟨-, rfl⟩ := Prod.mk.inj (Except.ok.inj h)
      exact hle
    · rw [rest_enterBlock h]
      exact hle
  · obtain ⟨-, rfl⟩ := Prod.mk.inj (Except.ok.inj h)
    exact Nat.le_refl _

theorem rest_take (r : Reader) (l : Lexeme) (rest : List Char) : (r.take l rest).2.rest = rest := by
  unfold take
  cases l with
  | token => rfl
  | lineBreak =>
    dsimp only
    split <;> rfl
  | gap => rfl

/-- Reading a lexeme shortens a text that is not empty. -/
theorem length_rest_lexeme {r r' : Reader} {tokens : List Token}
    (h : r.lexeme = .ok (tokens, r')) : r'.rest = [] ∨ r'.rest.length < r.rest.length := by
  unfold lexeme at h
  split at h
  · rename_i l rest hnext
    obtain ⟨hne, happend⟩ := Lexeme.next?_eq_some hnext
    have hrest : r'.rest = rest := by
      rw [← rest_take r l rest, Except.ok.inj h]
    refine Or.inr ?_
    have hpos := List.length_pos_iff.2 hne
    rw [hrest, ← happend, List.length_append]
    omega
  · rename_i hrest
    obtain ⟨-, rfl⟩ := Prod.mk.inj (Except.ok.inj h)
    exact Or.inl hrest
  · simp at h

/-- Every step shortens a text that is not empty. -/
theorem length_rest_step {r r' : Reader} {tokens : List Token} (hne : r.rest ≠ [])
    (h : r.step = .ok (tokens, r')) : r'.rest.length < r.rest.length := by
  unfold step at h
  cases henter : r.enterLine with
  | error e => simp [henter, bind, Except.bind] at h
  | ok entered =>
    cases hlexeme : entered.2.lexeme with
    | error e => simp [henter, hlexeme, bind, Except.bind] at h
    | ok taken =>
      simp only [henter, hlexeme, bind, Except.bind, pure, Except.pure, Except.ok.injEq,
        Prod.mk.injEq] at h
      obtain ⟨-, rfl⟩ := h
      have hpos := List.length_pos_iff.2 hne
      have hle := length_rest_enterLine henter
      rcases length_rest_lexeme hlexeme with hnil | hlt
      · rw [hnil]
        exact hpos
      · omega

/-- The tokens of a text. -/
def tokens (r : Reader) : Except SyntaxError (List Token) :=
  if _hne : r.rest = [] then .ok r.finish
  else
    match _h : r.step with
    | .error e => .error e
    | .ok (found, next) => next.tokens.map (found ++ ·)
termination_by r.rest.length
decreasing_by exact length_rest_step _hne _h

end Reader

/-- The tokens of a block. They end with the marks that close all that is open, and the last of
them is the end of the text. -/
def tokenize (code : String) : Except SyntaxError (List Token) :=
  (Reader.ofText code).tokens

end NoteCheck.Code
