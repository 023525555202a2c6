/-
# Lexemes

The pieces into which the characters of a block fall, one after the other: string literals, words,
numbers, marks, line breaks, and the gaps between them. Each reader below splits a text into a
piece at its beginning and the rest; the main statement, `Lexeme.next?_eq_some`, says that the
piece is never empty and that piece and rest together are the text.
-/
import NoteCheck.Code.Token
import NoteCheck.Text.Letter
import NoteCheck.Text.Pieces

namespace NoteCheck.Code

/-- A piece at the beginning of a text, and the rest. -/
abbrev Split := List Char × List Char

namespace Split

/-- Characters put before the piece. -/
def after (lead : List Char) (s : Split) : Split := (lead ++ s.1, s.2)

/-- The longest piece made of characters of a class. -/
def run (p : Char → Bool) (cs : List Char) : Split := (cs.takeWhile p, cs.dropWhile p)

/-- A split cuts a text when the piece is not empty, and piece and rest together are the text. -/
def Cuts (s : Split) (cs : List Char) : Prop := s.1 ≠ [] ∧ s.1 ++ s.2 = cs

theorem run_append (p : Char → Bool) (cs : List Char) : (run p cs).1 ++ (run p cs).2 = cs :=
  List.takeWhile_append_dropWhile

theorem after_append (s : Split) (lead : List Char) :
    (s.after lead).1 ++ (s.after lead).2 = lead ++ (s.1 ++ s.2) := by
  simp [after]

/-- A piece that begins with a character is not empty. -/
theorem cuts_after_cons {s : Split} {c : Char} {lead cs : List Char}
    (h : (c :: lead) ++ (s.1 ++ s.2) = cs) : (s.after (c :: lead)).Cuts cs :=
  ⟨by simp [after], by rw [after_append, h]⟩

/-- What stands before a piece is cut off with it. -/
theorem Cuts.after {s : Split} {cs : List Char} (h : s.Cuts cs) (lead : List Char) :
    (s.after lead).Cuts (lead ++ cs) :=
  ⟨by simp [Split.after, h.1], by rw [after_append, h.2]⟩

/-- The rest after a piece is shorter than the text. -/
theorem Cuts.length_lt {s : Split} {cs : List Char} (h : s.Cuts cs) :
    s.2.length < cs.length := by
  have hlen := List.length_pos_iff.2 h.1
  rw [← h.2, List.length_append]
  omega

/-- What one of two readers finds was found by the first or by the second. -/
theorem of_orElse {a b : Option Split} {s : Split} (h : (a <|> b) = some s) :
    a = some s ∨ b = some s := by
  cases a <;> simp_all

end Split

/-! ## String literals -/

namespace StringLiteral

/-- The marks that may stand before the opening quote, in either case. -/
def leads : List (List Char) :=
  [[], ['r'], ['b'], ['u'], ['f'], ['r', 'b'], ['b', 'r'], ['f', 'r'], ['r', 'f']]

/-- The rest of a literal in single quotes after its opening quote. A backslash takes the next
character with it, and a bare line break is not allowed. -/
def closeSingle? (quote : Char) : List Char → Option Split
  | [] => none
  | '\\' :: c :: rest => (closeSingle? quote rest).map (Split.after ['\\', c])
  | c :: rest =>
    if c = quote then some ([c], rest)
    else if c = '\n' ∨ c = '\\' then none
    else (closeSingle? quote rest).map (Split.after [c])

/-- The rest of a literal in triple quotes after its opening quotes: it ends with the next three
quotes, whatever stands before them. -/
def closeTriple? (quote : Char) : List Char → Option Split
  | a :: b :: c :: rest =>
    if a = quote ∧ b = quote ∧ c = quote then some ([a, b, c], rest)
    else (closeTriple? quote (b :: c :: rest)).map (Split.after [a])
  | _ => none

/-- A literal in triple quotes, from the opening quotes on. -/
def triple? : List Char → Option Split
  | a :: b :: c :: rest =>
    if (a = '"' ∨ a = '\'') ∧ b = a ∧ c = a then
      (closeTriple? a rest).map (Split.after [a, b, c])
    else none
  | _ => none

/-- A literal in single quotes, from the opening quote on. -/
def single? : List Char → Option Split
  | quote :: rest =>
    if quote = '"' ∨ quote = '\'' then (closeSingle? quote rest).map (Split.after [quote])
    else none
  | [] => none

/-- A literal from its first quote on. Triple quotes that are never closed are read as an empty
literal and what follows it. -/
def body? (cs : List Char) : Option Split := triple? cs <|> single? cs

/-- The characters before the first quote, as far as a literal may have them there. -/
def lead (cs : List Char) : List Char := (cs.take 3).takeWhile fun c => c != '"' && c != '\''

/-- A string literal. -/
def read? (cs : List Char) : Option Split :=
  if leads.contains ((lead cs).map Char.toLower) then
    (body? (cs.drop (lead cs).length)).map (Split.after (lead cs))
  else none

/-- The kind of a literal: an `f` before the opening quote makes it a formatted string. -/
def kind (literal : List Char) : TokenKind :=
  if (lead literal).any fun c => c == 'f' || c == 'F' then .formattedString else .string

theorem cuts_of_closeSingle? {quote : Char} {cs : List Char} {s : Split}
    (h : closeSingle? quote cs = some s) : s.Cuts cs := by
  fun_induction closeSingle? quote cs generalizing s with
  | case1 => simp at h
  | case2 c rest ih =>
    obtain ⟨t, ht, rfl⟩ := Option.map_eq_some_iff.1 h
    exact (ih ht).after _
  | case3 rest _ =>
    obtain rfl := Option.some.inj h
    exact ⟨by simp, rfl⟩
  | case4 => simp at h
  | case5 c rest _ _ _ ih =>
    obtain ⟨t, ht, rfl⟩ := Option.map_eq_some_iff.1 h
    exact (ih ht).after [c]

theorem cuts_of_closeTriple? {quote : Char} {cs : List Char} {s : Split}
    (h : closeTriple? quote cs = some s) : s.Cuts cs := by
  fun_induction closeTriple? quote cs generalizing s with
  | case1 a b c rest heq =>
    obtain rfl := Option.some.inj h
    exact ⟨by simp, by simp⟩
  | case2 a b c rest _ ih =>
    obtain ⟨t, ht, rfl⟩ := Option.map_eq_some_iff.1 h
    exact (ih ht).after [a]
  | case3 => simp at h

theorem cuts_of_body? {cs : List Char} {s : Split} (h : body? cs = some s) : s.Cuts cs := by
  rcases Split.of_orElse h with h | h
  · unfold triple? at h
    split at h
    · split at h
      · obtain ⟨t, ht, rfl⟩ := Option.map_eq_some_iff.1 h
        exact (cuts_of_closeTriple? ht).after _
      · simp at h
    · simp at h
  · unfold single? at h
    split at h
    · split at h
      · obtain ⟨t, ht, rfl⟩ := Option.map_eq_some_iff.1 h
        exact (cuts_of_closeSingle? ht).after _
      · simp at h
    · simp at h

/-- The marks before a literal are the first characters of the text. -/
theorem lead_append_drop (cs : List Char) : lead cs ++ cs.drop (lead cs).length = cs := by
  have h : lead cs <+: cs := (List.takeWhile_prefix _).trans (List.take_prefix 3 cs)
  exact List.prefix_iff_eq_append.1 h

/-- A string literal is cut off the text. -/
theorem cuts_of_read? {cs : List Char} {s : Split} (h : read? cs = some s) : s.Cuts cs := by
  unfold read? at h
  split at h
  · obtain ⟨t, ht, rfl⟩ := Option.map_eq_some_iff.1 h
    have hcut := (cuts_of_body? ht).after (lead cs)
    rwa [lead_append_drop] at hcut
  · simp at h

end StringLiteral

/-! ## Words -/

namespace Word

/-- A character with which a word may begin. -/
def isStart (c : Char) : Bool := Text.isLetter c || c == '_'

/-- A character with which a word may go on. -/
def isPart (c : Char) : Bool := Text.isLetter c || Text.isNumeral c || c == '_'

/-- A name or reserved word. -/
def read? : List Char → Option Split
  | [] => none
  | c :: rest => if isStart c then some ((Split.run isPart rest).after [c]) else none

/-- A word is cut off the text. -/
theorem cuts_of_read? {cs : List Char} {s : Split} (h : read? cs = some s) : s.Cuts cs := by
  unfold read? at h
  split at h
  · simp at h
  · split at h
    · obtain rfl := Option.some.inj h
      exact Split.cuts_after_cons (by rw [Split.run_append]; rfl)
    · simp at h

end Word

/-! ## Numbers -/

namespace Numeral

/-- A decimal digit or the underscore that groups digits. -/
def isDigitPart (c : Char) : Bool := c.isDigit || c == '_'

/-- The digits, and the underscore, that the mark after a leading zero announces. -/
def radixDigit? : Char → Option (Char → Bool)
  | 'x' | 'X' => some fun c =>
    c.isDigit || ('a' ≤ c && c ≤ 'f') || ('A' ≤ c && c ≤ 'F') || c == '_'
  | 'b' | 'B' => some fun c => c == '0' || c == '1' || c == '_'
  | 'o' | 'O' => some fun c => ('0' ≤ c && c ≤ '7') || c == '_'
  | _ => none

/-- A number whose radix is marked, such as `0xff`. -/
def radix? : List Char → Option Split
  | '0' :: mark :: rest => do
    let isRadixDigit ← radixDigit? mark
    let digits := Split.run isRadixDigit rest
    if digits.1 = [] then none else some (digits.after ['0', mark])
  | _ => none

/-- The point and the digits after it, if there is a point. -/
def fraction : List Char → Split
  | '.' :: rest => (Split.run isDigitPart rest).after ['.']
  | cs => ([], cs)

/-- Digits with a fraction, or a fraction alone, which needs a digit. -/
def decimal? : List Char → Option Split
  | '.' :: c :: rest =>
    if c.isDigit then some ((Split.run isDigitPart rest).after ['.', c]) else none
  | c :: rest =>
    if c.isDigit then
      let (whole, rest) := Split.run isDigitPart rest
      some ((fraction rest).after (c :: whole))
    else none
  | [] => none

/-- Digits of an exponent after the given mark and sign; without digits there is no exponent. -/
def exponentDigits (lead rest : List Char) : Split :=
  let digits := Split.run isDigitPart rest
  if digits.1 = [] then ([], lead ++ rest) else digits.after lead

/-- The exponent, if there is one. -/
def exponent : List Char → Split
  | e :: rest =>
    if e = 'e' ∨ e = 'E' then
      match rest with
      | '+' :: rest => exponentDigits [e, '+'] rest
      | '-' :: rest => exponentDigits [e, '-'] rest
      | rest => exponentDigits [e] rest
    else ([], e :: rest)
  | [] => ([], [])

/-- The mark of an imaginary number, if there is one. -/
def imaginary : List Char → Split
  | c :: rest => if c = 'j' ∨ c = 'J' then ([c], rest) else ([], c :: rest)
  | [] => ([], [])

/-- What may follow the digits and the fraction: an exponent and the imaginary mark. -/
def scale (cs : List Char) : Split := (imaginary (exponent cs).2).after (exponent cs).1

/-- A number. -/
def read? (cs : List Char) : Option Split :=
  radix? cs <|> (decimal? cs).map fun mantissa => (scale mantissa.2).after mantissa.1

theorem fraction_append (cs : List Char) : (fraction cs).1 ++ (fraction cs).2 = cs := by
  unfold fraction
  split
  · rw [Split.after_append, Split.run_append]; rfl
  · rfl

theorem exponentDigits_append (lead rest : List Char) :
    (exponentDigits lead rest).1 ++ (exponentDigits lead rest).2 = lead ++ rest := by
  unfold exponentDigits
  dsimp only
  split
  · rfl
  · rw [Split.after_append, Split.run_append]

theorem exponent_append (cs : List Char) : (exponent cs).1 ++ (exponent cs).2 = cs := by
  unfold exponent
  split
  · split
    · split <;> simp [exponentDigits_append]
    · rfl
  · rfl

theorem imaginary_append (cs : List Char) : (imaginary cs).1 ++ (imaginary cs).2 = cs := by
  unfold imaginary
  split
  · split <;> rfl
  · rfl

theorem scale_append (cs : List Char) : (scale cs).1 ++ (scale cs).2 = cs := by
  rw [scale, Split.after_append, imaginary_append, exponent_append]

theorem cuts_of_radix? {cs : List Char} {s : Split} (h : radix? cs = some s) : s.Cuts cs := by
  unfold radix? at h
  split at h
  · obtain ⟨p, _, h⟩ := Option.bind_eq_some_iff.1 h
    dsimp only at h
    split at h
    · simp at h
    · obtain rfl := Option.some.inj h
      exact Split.cuts_after_cons (by rw [Split.run_append]; rfl)
  · simp at h

theorem cuts_of_decimal? {cs : List Char} {s : Split} (h : decimal? cs = some s) :
    s.Cuts cs := by
  unfold decimal? at h
  split at h
  · split at h
    · obtain rfl := Option.some.inj h
      exact Split.cuts_after_cons (by rw [Split.run_append]; rfl)
    · simp at h
  · split at h
    · obtain rfl := Option.some.inj h
      exact Split.cuts_after_cons (by
        rw [fraction_append]; exact congrArg (_ :: ·) (Split.run_append _ _))
    · simp at h
  · simp at h

/-- A number is cut off the text. -/
theorem cuts_of_read? {cs : List Char} {s : Split} (h : read? cs = some s) : s.Cuts cs := by
  rcases Split.of_orElse h with h | h
  · exact cuts_of_radix? h
  · obtain ⟨mantissa, hmantissa, rfl⟩ := Option.map_eq_some_iff.1 h
    have hcut := cuts_of_decimal? hmantissa
    refine ⟨by simp [Split.after, hcut.1], ?_⟩
    rw [Split.after_append, scale_append, hcut.2]

end Numeral

/-! ## Line breaks, gaps and marks -/

namespace Gap

/-- A line break, with or without a carriage return. -/
def lineBreak? : List Char → Option Split
  | '\r' :: '\n' :: rest => some (['\r', '\n'], rest)
  | '\n' :: rest => some (['\n'], rest)
  | _ => none

/-- A backslash at the end of a line joins it to the next one. -/
def continuation? : List Char → Option Split
  | '\\' :: rest => (lineBreak? rest).map (Split.after ['\\'])
  | _ => none

/-- A character that only separates tokens. -/
def isBlank (c : Char) : Bool := c == ' ' || c == '\t' || c == '\x0c' || c == '\r'

/-- Blanks between tokens. -/
def blanks? (cs : List Char) : Option Split :=
  let split := Split.run isBlank cs
  if split.1 = [] then none else some split

/-- A comment runs to the end of its line. -/
def comment? : List Char → Option Split
  | '#' :: rest => some ((Split.run (· != '\n') rest).after ['#'])
  | _ => none

/-- What separates tokens without ending a line. -/
def read? (cs : List Char) : Option Split :=
  continuation? cs <|> blanks? cs <|> comment? cs

/-- A line break is cut off the text. -/
theorem cuts_of_lineBreak? {cs : List Char} {s : Split} (h : lineBreak? cs = some s) :
    s.Cuts cs := by
  unfold lineBreak? at h
  split at h <;> simp_all [Split.Cuts] <;> subst h <;> simp

/-- A gap is cut off the text. -/
theorem cuts_of_read? {cs : List Char} {s : Split} (h : read? cs = some s) : s.Cuts cs := by
  rcases Split.of_orElse h with h | h
  · unfold continuation? at h
    split at h
    · obtain ⟨t, ht, rfl⟩ := Option.map_eq_some_iff.1 h
      exact (cuts_of_lineBreak? ht).after _
    · simp at h
  · rcases Split.of_orElse h with h | h
    · unfold blanks? at h
      dsimp only at h
      split at h
      · simp at h
      · obtain rfl := Option.some.inj h
        exact ⟨by assumption, Split.run_append _ _⟩
    · unfold comment? at h
      split at h
      · obtain rfl := Option.some.inj h
        exact Split.cuts_after_cons (by rw [Split.run_append]; rfl)
      · simp at h

end Gap

/-- The longest mark with which a text begins, and the rest. -/
def TokenKind.mark? (cs : List Char) : Option (TokenKind × Split) :=
  marks.findSome? fun (text, kind) =>
    (text.toList.isPrefixOf? cs).map fun rest => (kind, text.toList, rest)

/-- No mark is empty. -/
theorem TokenKind.ne_nil_of_mem_marks {m : String × TokenKind} (h : m ∈ TokenKind.marks) :
    m.1.toList ≠ [] := by
  revert m
  decide +kernel

/-- A mark is cut off the text. -/
theorem TokenKind.cuts_of_mark? {cs : List Char} {m : TokenKind × Split}
    (h : TokenKind.mark? cs = some m) : m.2.Cuts cs := by
  obtain ⟨mark, hmem, hmark⟩ := List.exists_of_findSome?_eq_some h
  obtain ⟨rest, hrest, rfl⟩ := Option.map_eq_some_iff.1 hmark
  refine ⟨TokenKind.ne_nil_of_mem_marks hmem, ?_⟩
  exact Text.append_of_isPrefixOf? hrest

/-! ## The next lexeme -/

/-- A piece of the text of a block. -/
inductive Lexeme where
  /-- A token. -/
  | token (kind : TokenKind) (text : List Char)
  /-- The end of a line. -/
  | lineBreak (text : List Char)
  /-- Blanks, a comment, or the joint of two lines. -/
  | gap (text : List Char)
  deriving DecidableEq, Repr

namespace Lexeme

/-- The characters of a lexeme. -/
def text : Lexeme → List Char
  | token _ text | lineBreak text | gap text => text

/-- The lexeme with which a text begins, and the rest. A word that may open a string literal is
read as one where it can be. -/
def next? (cs : List Char) : Option (Lexeme × List Char) :=
  match StringLiteral.read? cs with
  | some (text, rest) => some (token (StringLiteral.kind text) text, rest)
  | none =>
  match Word.read? cs with
  | some (text, rest) => some (token (TokenKind.ofWord (String.ofList text)) text, rest)
  | none =>
  match Numeral.read? cs with
  | some (text, rest) => some (token .number text, rest)
  | none =>
  match Gap.lineBreak? cs with
  | some (text, rest) => some (lineBreak text, rest)
  | none =>
  match Gap.read? cs with
  | some (text, rest) => some (gap text, rest)
  | none => (TokenKind.mark? cs).map fun (kind, text, rest) => (token kind text, rest)

/-- A lexeme is never empty, and lexeme and rest together are the text. -/
theorem next?_eq_some {cs rest : List Char} {l : Lexeme} (h : next? cs = some (l, rest)) :
    l.text ≠ [] ∧ l.text ++ rest = cs := by
  unfold next? at h
  split at h
  · obtain ⟨rfl, rfl⟩ := Prod.mk.inj (Option.some.inj h)
    exact StringLiteral.cuts_of_read? ‹_›
  split at h
  · obtain ⟨rfl, rfl⟩ := Prod.mk.inj (Option.some.inj h)
    exact Word.cuts_of_read? ‹_›
  split at h
  · obtain ⟨rfl, rfl⟩ := Prod.mk.inj (Option.some.inj h)
    exact Numeral.cuts_of_read? ‹_›
  split at h
  · obtain ⟨rfl, rfl⟩ := Prod.mk.inj (Option.some.inj h)
    exact Gap.cuts_of_lineBreak? ‹_›
  split at h
  · obtain ⟨rfl, rfl⟩ := Prod.mk.inj (Option.some.inj h)
    exact Gap.cuts_of_read? ‹_›
  · obtain ⟨⟨kind, s⟩, hm, h⟩ := Option.map_eq_some_iff.1 h
    obtain ⟨rfl, rfl⟩ := Prod.mk.inj h
    exact TokenKind.cuts_of_mark? hm

end Lexeme

end NoteCheck.Code
