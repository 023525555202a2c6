/-
# Words

A lexeme that is followed by a blank or a bracket is read in the same way as alone, since no reader
of words, numbers and marks looks past one. The main statement is `IsWord.next?_append`.
-/
import NoteCheck.Proofs.Layout.EndOfText
import Mathlib.Data.Bool.AllAny
import Mathlib.Data.List.Forall2
import Mathlib.Data.List.TakeWhile

namespace NoteCheck.Code

/-! ## Readers that stop at a delimiter -/

/-- A text that is over, or goes on with a character with which every word ends. -/
inductive Delimited : List Char → Prop
  | nil : Delimited []
  | blank {rest} : Delimited (' ' :: rest)
  | tab {rest} : Delimited ('\t' :: rest)
  | formFeed {rest} : Delimited ('\x0c' :: rest)
  | carriageReturn {rest} : Delimited ('\r' :: rest)
  | lineBreak {rest} : Delimited ('\n' :: rest)
  | joint {rest} : Delimited ('\\' :: rest)
  | comment {rest} : Delimited ('#' :: rest)
  | openParen {rest} : Delimited ('(' :: rest)
  | closeParen {rest} : Delimited (')' :: rest)
  | openBracket {rest} : Delimited ('[' :: rest)
  | closeBracket {rest} : Delimited (']' :: rest)
  | comma {rest} : Delimited (',' :: rest)
  | colon {rest} : Delimited (':' :: rest)

/-- The characters with which every word ends. -/
def delimiters : List Char :=
  [' ', '\t', '\x0c', '\r', '\n', '\\', '#', '(', ')', '[', ']', ',', ':']

/-- A delimited rest begins with one of the delimiters. -/
theorem Delimited.mem_delimiters {rest : List Char} (h : Delimited rest) {c : Char}
    (hc : c ∈ rest.head?) : c ∈ delimiters := by
  cases h <;> cases hc <;> decide

namespace Split

/-- A piece and the rest, with more text after the rest. -/
def followed (rest : List Char) (s : Split) : Split := (s.1, s.2 ++ rest)

/-- Characters other than delimiters are taken up to the delimiter. -/
theorem run_append_of_delimited {p : Char → Bool} (hp : ∀ c ∈ delimiters, p c = false)
    {rest : List Char} (hrest : Delimited rest) (cs : List Char) :
    run p (cs ++ rest) = (run p cs).followed rest := by
  induction cs with
  | nil =>
    cases rest with
    | nil => rfl
    | cons c more => simp [run, followed, hp c (hrest.mem_delimiters rfl)]
  | cons c cs ih =>
    have hfirst := congrArg Prod.fst ih
    have hsecond := congrArg Prod.snd ih
    by_cases hc : p c = true
    · simp_all [run, followed]
    · simp_all [run, followed]

end Split

namespace Word

/-- A name is read alike with a delimiter after the text. -/
theorem read?_append {cs rest : List Char} (hne : cs ≠ []) (hrest : Delimited rest) :
    read? (cs ++ rest) = (read? cs).map (Split.followed rest) := by
  obtain ⟨c, cs, rfl⟩ := List.exists_cons_of_ne_nil hne
  rw [List.cons_append, read?, read?,
    Split.run_append_of_delimited (List.all_iff_forall_prop.1 (by decide)) hrest]
  split <;> rfl

/-- What may begin a name may go on with it. -/
theorem isPart_of_isStart {c : Char} (h : isStart c = true) : isPart c = true := by
  rw [isStart, Bool.or_eq_true] at h
  rw [isPart, Bool.or_eq_true, Bool.or_eq_true]
  exact h.imp_left .inl

/-- No quote stands in a word. -/
theorem not_quote_of_isPart {c : Char} (h : isPart c = true) :
    (c != '"' && c != '\'') = true := by
  rw [Bool.and_eq_true, bne_iff_ne, bne_iff_ne]
  constructor
  · rintro rfl
    cases h
  · rintro rfl
    cases h

/-- What is no letter has no other case. -/
theorem toLower_eq_of_isStart_eq_false {c : Char} (h : isStart c = false) : c.toLower = c := by
  rw [isStart, Bool.or_eq_false_iff] at h
  delta Char.toLower
  split
  · rename_i hupper
    have hascii : c.toNat < 0x80 := by
      have hle : c.toNat ≤ 90 := UInt32.le_iff_toNat_le.1 hupper.2
      omega
    have hletter : c.isAlpha = true := by
      delta Char.isAlpha Char.isUpper
      rw [Bool.or_eq_true, decide_eq_true_eq]
      exact .inl hupper
    rw [Text.isLetter_of_ascii hascii, hletter] at h
    exact absurd h.1.symm Bool.false_ne_true
  · rfl

end Word

namespace Numeral

variable {rest : List Char}

/-- A fraction is read alike with a delimiter after the text. -/
theorem fraction_append_of_delimited (hrest : Delimited rest) (cs : List Char) :
    fraction (cs ++ rest) = (fraction cs).followed rest := by
  cases cs with
  | nil =>
    cases hrest <;> rfl
  | cons c cs =>
    by_cases hc : c = '.'
    · subst hc
      rw [List.cons_append, fraction, fraction,
        Split.run_append_of_delimited (List.all_iff_forall_prop.1 (by decide)) hrest]
      rfl
    · rw [List.cons_append, fraction.eq_2 _ (by simp [hc]), fraction.eq_2 _ (by simp [hc])]
      rfl

/-- The digits of an exponent are read alike with a delimiter after the text. -/
theorem exponentDigits_append_of_delimited (hrest : Delimited rest) (lead cs : List Char) :
    exponentDigits lead (cs ++ rest) = (exponentDigits lead cs).followed rest := by
  rw [exponentDigits, exponentDigits,
    Split.run_append_of_delimited (List.all_iff_forall_prop.1 (by decide)) hrest]
  by_cases hdigits : (Split.run isDigitPart cs).1 = []
  · simp [Split.followed, hdigits]
  · simp [Split.followed, Split.after, hdigits]

/-- An exponent is read alike with a delimiter after the text. -/
theorem exponent_append_of_delimited (hrest : Delimited rest) (cs : List Char) :
    exponent (cs ++ rest) = (exponent cs).followed rest := by
  cases cs with
  | nil =>
    cases hrest <;> rfl
  | cons e cs =>
    have hdigits := fun lead cs => exponentDigits_append_of_delimited hrest lead cs
    by_cases he : e = 'e' ∨ e = 'E'
    · unfold exponent
      dsimp only [List.cons_append]
      rw [if_pos he, if_pos he]
      -- a sign belongs to the exponent, and a delimiter is no sign
      match cs with
      | [] => cases hrest <;> rfl
      | sign :: digits =>
        by_cases hplus : sign = '+'
        · subst hplus
          exact hdigits [e, '+'] digits
        · by_cases hminus : sign = '-'
          · subst hminus
            exact hdigits [e, '-'] digits
          · simpa [hplus, hminus] using hdigits [e] (sign :: digits)
    · unfold exponent
      dsimp only [List.cons_append]
      rw [if_neg he, if_neg he]
      rfl

/-- The mark of an imaginary number is read alike with a delimiter after the text. -/
theorem imaginary_append_of_delimited (hrest : Delimited rest) (cs : List Char) :
    imaginary (cs ++ rest) = (imaginary cs).followed rest := by
  cases cs with
  | nil =>
    cases hrest <;> rfl
  | cons c cs =>
    rw [List.cons_append, imaginary, imaginary]
    split <;> rfl

/-- What scales a number is read alike with a delimiter after the text. -/
theorem scale_append_of_delimited (hrest : Delimited rest) (cs : List Char) :
    scale (cs ++ rest) = (scale cs).followed rest := by
  rw [scale, scale, exponent_append_of_delimited hrest, Split.followed,
    imaginary_append_of_delimited hrest]
  rfl

/-- No delimiter is a digit, to any radix. -/
theorem radixDigit?_delimiter {mark : Char} {isRadixDigit : Char → Bool}
    (h : radixDigit? mark = some isRadixDigit) :
    ∀ c ∈ delimiters, isRadixDigit c = false := by
  unfold radixDigit? at h
  split at h
  all_goals first
    | cases h
      exact List.all_iff_forall_prop.1 (by decide)
    | cases h

/-- A number with a radix is read alike with a delimiter after the text. -/
theorem radix?_append_of_delimited (hrest : Delimited rest) {cs : List Char} (hne : cs ≠ []) :
    radix? (cs ++ rest) = (radix? cs).map (Split.followed rest) := by
  obtain ⟨c, cs, rfl⟩ := List.exists_cons_of_ne_nil hne
  by_cases hc : c = '0'
  · subst hc
    cases cs with
    | nil =>
      cases hrest <;> rfl
    | cons mark digits =>
      rw [List.cons_append, List.cons_append, radix?, radix?]
      cases hmark : radixDigit? mark with
      | none => rfl
      | some isRadixDigit =>
        dsimp only [Option.bind_eq_bind, Option.bind_some]
        rw [Split.run_append_of_delimited (radixDigit?_delimiter hmark) hrest]
        by_cases hdigits : (Split.run isRadixDigit digits).1 = []
        · simp [Split.followed, hdigits]
        · simp [Split.followed, Split.after, hdigits]
  · have hother : ∀ text, radix? (c :: text) = none := by
      intro text
      rw [radix?.eq_2]
      simp [hc]
    rw [List.cons_append, hother, hother]
    rfl

/-- A decimal number is read alike with a delimiter after the text. -/
theorem decimal?_append_of_delimited (hrest : Delimited rest) {cs : List Char} (hne : cs ≠ []) :
    decimal? (cs ++ rest) = (decimal? cs).map (Split.followed rest) := by
  have hrun := fun cs => Split.run_append_of_delimited (p := isDigitPart)
    (List.all_iff_forall_prop.1 (by decide)) hrest cs
  obtain ⟨c, cs, rfl⟩ := List.exists_cons_of_ne_nil hne
  by_cases hc : c = '.'
  · subst hc
    cases cs with
    | nil =>
      cases hrest <;> rfl
    | cons d digits =>
      rw [List.cons_append, List.cons_append, decimal?, decimal?, hrun]
      split <;> rfl
  · have hother : ∀ text, decimal? (c :: text) = if c.isDigit then
        some ((fraction (Split.run isDigitPart text).2).after
          (c :: (Split.run isDigitPart text).1)) else none := by
      intro text
      rw [decimal?.eq_2]
      simp [hc]
    rw [List.cons_append, hother, hother, hrun, Split.followed,
      fraction_append_of_delimited hrest]
    split <;> rfl

/-- A number is read up to the delimiter after it. -/
theorem read?_append {cs : List Char} (hne : cs ≠ []) (hrest : Delimited rest) :
    read? (cs ++ rest) = (read? cs).map (Split.followed rest) := by
  rw [read?, read?, radix?_append_of_delimited hrest hne, decimal?_append_of_delimited hrest hne]
  cases radix? cs with
  | some s => rfl
  | none =>
    cases decimal? cs with
    | none => rfl
    | some s => exact congrArg (fun t => some (t.after s.1)) (scale_append_of_delimited hrest s.2)

end Numeral

namespace StringLiteral

/-- No string literal begins with a character that is neither a quote nor the beginning of a
word. -/
theorem read?_eq_none_of_head {c : Char} (hquote : c ≠ '"' ∧ c ≠ '\'')
    (hstart : Word.isStart c = false) (cs : List Char) : read? (c :: cs) = none := by
  have hlower := Word.toLower_eq_of_isStart_eq_false hstart
  have hleads : ∀ mark, mark = 'r' ∨ mark = 'b' ∨ mark = 'u' ∨ mark = 'f' → c ≠ mark := by
    rintro mark hmark rfl
    obtain rfl | rfl | rfl | rfl := hmark <;> cases hstart
  simp [read?, lead, leads, hquote, hlower, hleads]

/-- Where no quote stands in the first word, no string literal begins. -/
theorem read?_append_eq_none {cs rest : List Char}
    (hquotes : cs.all fun c => c != '"' && c != '\'') (hne : cs ≠ [])
    (hrest : Delimited rest) : read? (cs ++ rest) = none := by
  have hbody : body? [] = none := rfl
  simp only [List.all_eq_true, Bool.and_eq_true, bne_iff_ne] at hquotes
  -- what stands before a literal has at most two characters, and no delimiter
  match cs with
  | [] => exact absurd rfl hne
  | [a] =>
    have ha := hquotes a (by simp)
    cases hrest with
    | nil => simp [read?, lead, ha, hbody]
    | _ => simp [read?, lead, ha, leads]
  | [a, b] =>
    have ha := hquotes a (by simp)
    have hb := hquotes b (by simp)
    cases hrest with
    | nil => simp [read?, lead, ha, hb, hbody]
    | _ => simp [read?, lead, ha, hb, leads]
  | a :: b :: c :: more =>
    have ha := hquotes a (by simp)
    have hb := hquotes b (by simp)
    have hc := hquotes c (by simp)
    simp [read?, lead, ha, hb, hc, leads]

end StringLiteral

namespace Gap

/-- No line break and no gap begins with a character that is neither one of theirs nor a blank. -/
theorem eq_none_of_head {c : Char} (hbreak : c ≠ '\n') (hblank : isBlank c = false)
    (hother : c ≠ '\\' ∧ c ≠ '#') (cs : List Char) :
    lineBreak? (c :: cs) = none ∧ read? (c :: cs) = none := by
  have hreturn : c ≠ '\r' := by
    rintro rfl
    cases hblank
  have hjoint : continuation? (c :: cs) = none := by
    rw [continuation?.eq_2]
    simp [hother.1]
  have hcomment : comment? (c :: cs) = none := by
    rw [comment?.eq_2]
    simp [hother.2]
  have hblanks : blanks? (c :: cs) = none := by simp [blanks?, Split.run, hblank]
  refine ⟨?_, by rw [read?, hjoint, hblanks, hcomment]; rfl⟩
  unfold lineBreak?
  split <;> simp_all

/-- The first character of a gap says which kind of gap it is. -/
theorem read?_joint (cs : List Char) :
    read? ('\\' :: cs) = (lineBreak? cs).map (Split.after ['\\']) := by
  rw [read?, continuation?]
  cases lineBreak? cs <;> rfl

/-- A number sign begins a comment, which goes on to the end of the line. -/
theorem read?_comment (cs : List Char) :
    read? ('#' :: cs) = some ((Split.run (· != '\n') cs).after ['#']) := rfl

/-- What begins with neither a backslash nor a number sign can only be blanks. -/
theorem read?_blanks {c : Char} (hjoint : c ≠ '\\') (hcomment : c ≠ '#') (cs : List Char) :
    read? (c :: cs) = blanks? (c :: cs) := by
  have hfirst : continuation? (c :: cs) = none := continuation?.eq_2 _ (by simp [hjoint])
  have hlast : comment? (c :: cs) = none := comment?.eq_2 _ (by simp [hcomment])
  rw [read?, hfirst, hlast]
  cases blanks? (c :: cs) <;> rfl

end Gap

/-! ## What separates tokens -/

namespace Lexeme

/-- A line feed ends a line. -/
theorem next?_lineBreak (cs : List Char) : next? ('\n' :: cs) = some (.lineBreak ['\n'], cs) := by
  rw [next?, StringLiteral.read?_eq_none_of_head (by decide) rfl]
  rfl

/-- A carriage return with a line feed ends a line. -/
theorem next?_return (cs : List Char) :
    next? ('\r' :: '\n' :: cs) = some (.lineBreak ['\r', '\n'], cs) := by
  rw [next?, StringLiteral.read?_eq_none_of_head (by decide) rfl]
  rfl

/-- A comment up to the end of the line is a gap. -/
theorem next?_comment (cs : List Char) : next? ('#' :: cs) =
    some (.gap ('#' :: cs.takeWhile (· != '\n')), cs.dropWhile (· != '\n')) := by
  rw [next?, StringLiteral.read?_eq_none_of_head (by decide) rfl]
  rfl

/-- A backslash with a line break is a gap. -/
theorem next?_joint {cs text rest : List Char} (h : Gap.lineBreak? cs = some (text, rest)) :
    next? ('\\' :: cs) = some (.gap ('\\' :: text), rest) := by
  have hstring : StringLiteral.read? ('\\' :: cs) = none :=
    StringLiteral.read?_eq_none_of_head (by decide) rfl cs
  have hword : Word.read? ('\\' :: cs) = none := rfl
  have hnumber : Numeral.read? ('\\' :: cs) = none := rfl
  have hbreak : Gap.lineBreak? ('\\' :: cs) = none := rfl
  rw [next?, hstring, hword, hnumber, hbreak, Gap.read?_joint, h]
  rfl

/-- Blanks are read up to the first other character, but for a carriage return before a line break.
-/
theorem next?_blanks {c : Char} {cs : List Char} (hc : Gap.isBlank c = true)
    (hbreak : Gap.lineBreak? (c :: cs) = none) : next? (c :: cs) =
      some (.gap (c :: (Split.run Gap.isBlank cs).1), (Split.run Gap.isBlank cs).2) := by
  have hrun : Split.run Gap.isBlank (c :: cs) = (Split.run Gap.isBlank cs).after [c] := by
    rw [Split.run, List.takeWhile_cons_of_pos hc, List.dropWhile_cons_of_pos hc]
    rfl
  have hgap : Gap.read? (c :: cs) = some ((Split.run Gap.isBlank cs).after [c]) := by
    rw [Gap.read?_blanks (by rintro rfl; cases hc) (by rintro rfl; cases hc), Gap.blanks?, hrun]
    exact if_neg (List.cons_ne_nil c _)
  have hother : c = ' ' ∨ c = '\t' ∨ c = '\x0c' ∨ c = '\r' := by
    simpa [Gap.isBlank, or_assoc] using hc
  have hnone : StringLiteral.read? (c :: cs) = none ∧ Word.read? (c :: cs) = none ∧
      Numeral.read? (c :: cs) = none := by
    obtain rfl | rfl | rfl | rfl := hother <;>
      exact ⟨StringLiteral.read?_eq_none_of_head (by decide) rfl cs, rfl, rfl⟩
  rw [next?, hnone.1, hnone.2.1, hnone.2.2, hbreak, hgap]
  rfl

end Lexeme

/-- A text without delimiters is at the beginning of a text up to a delimiter or not at all. -/
theorem isPrefixOf?_append {text rest : List Char} (htext : ∀ c ∈ delimiters, c ∉ text)
    (hrest : Delimited rest) (cs : List Char) :
    text.isPrefixOf? (cs ++ rest) = (text.isPrefixOf? cs).map (· ++ rest) := by
  induction text generalizing cs with
  | nil => rfl
  | cons t text ih =>
    have hfirst : ∀ c ∈ delimiters, t ≠ c := by
      rintro c hc rfl
      exact htext t hc List.mem_cons_self
    cases cs with
    | nil =>
      cases rest with
      | nil => rfl
      | cons c more => simp [List.isPrefixOf?, hfirst c (hrest.mem_delimiters rfl)]
    | cons c cs =>
      by_cases hc : t = c
      · have hothers := ih fun c hc hmem => htext c hc (List.mem_cons_of_mem _ hmem)
        simp [List.isPrefixOf?, hc, hothers]
      · simp [List.isPrefixOf?, hc]

/-- A mark may be a delimiter, but after its first character it has none. -/
theorem isPrefixOf?_append_of_ne_nil {text rest : List Char}
    (htext : ∀ c ∈ delimiters, c ∉ text.tail) (hrest : Delimited rest) {cs : List Char}
    (hne : cs ≠ []) : text.isPrefixOf? (cs ++ rest) = (text.isPrefixOf? cs).map (· ++ rest) := by
  obtain ⟨c, cs, rfl⟩ := List.exists_cons_of_ne_nil hne
  cases text with
  | nil => rfl
  | cons t text =>
    by_cases hc : t = c
    · have hothers := isPrefixOf?_append (show ∀ c ∈ delimiters, c ∉ text from htext) hrest cs
      simp [List.isPrefixOf?, hc, hothers]
    · simp [List.isPrefixOf?, hc]

/-- A mark is read up to the delimiter after it. -/
theorem TokenKind.mark?_append {cs rest : List Char} (hne : cs ≠ []) (hrest : Delimited rest) :
    mark? (cs ++ rest) = (mark? cs).map fun m => (m.1, m.2.followed rest) := by
  have hmarks : ∀ m ∈ marks, ∀ c ∈ delimiters, c ∉ m.1.toList.tail := by
    simp only [← List.all_iff_forall_prop]
    decide +kernel
  unfold mark?
  generalize marks = found at hmarks
  induction found with
  | nil => rfl
  | cons mark found ih =>
    obtain ⟨text, kind⟩ := mark
    obtain ⟨htext, hfound⟩ := List.forall_mem_cons.1 hmarks
    have hmark := isPrefixOf?_append_of_ne_nil htext hrest hne
    rw [List.findSome?_cons, List.findSome?_cons]
    dsimp only at hmark ⊢
    rw [hmark]
    cases text.toList.isPrefixOf? cs with
    | none => exact ih hfound
    | some left => rfl

/-! ## Words -/

/-- A text that is a token as a whole, and not a string literal. -/
structure IsWord (word : String) (kind : TokenKind) : Prop where
  alone : Lexeme.next? word.toList = some (.token kind word.toList, [])
  ne_string : kind ≠ .string
  ne_formattedString : kind ≠ .formattedString

instance (word : String) (kind : TokenKind) : Decidable (IsWord word kind) :=
  decidable_of_iff (Lexeme.next? word.toList = some (.token kind word.toList, []) ∧
    kind ≠ .string ∧ kind ≠ .formattedString)
    ⟨fun h => ⟨h.1, h.2.1, h.2.2⟩, fun h => ⟨h.1, h.2, h.3⟩⟩

namespace IsWord

variable {word : String} {kind : TokenKind}

/-- A word has a character. -/
theorem ne_nil (h : IsWord word kind) : word.toList ≠ [] := by
  obtain ⟨hne, -⟩ := Lexeme.next?_eq_some h.alone
  exact hne

/-- A text is a word of one kind at most. -/
theorem unique {kind' : TokenKind} (h : IsWord word kind) (h' : IsWord word kind') :
    kind = kind' := by
  have halone := h.alone.symm.trans h'.alone
  cases halone
  rfl

/-- No string literal begins where a word stands alone. -/
theorem not_string (h : IsWord word kind) : StringLiteral.read? word.toList = none := by
  obtain ⟨halone, hstring, hformatted⟩ := h
  generalize word.toList = cs at halone
  unfold Lexeme.next? at halone
  cases hread : StringLiteral.read? cs with
  | none => rfl
  | some s =>
    rw [hread] at halone
    obtain ⟨hkind, -⟩ := Lexeme.token.inj (Prod.mk.inj (Option.some.inj halone)).1
    rw [StringLiteral.kind] at hkind
    split at hkind
    · exact absurd hkind.symm hformatted
    · exact absurd hkind.symm hstring

/-- No string literal begins where a word stands before a delimiter. -/
theorem not_string_append (h : IsWord word kind) {rest : List Char} (hrest : Delimited rest) :
    StringLiteral.read? (word.toList ++ rest) = none := by
  have hne := h.ne_nil
  have halone := h.alone
  have hstring := h.not_string
  generalize word.toList = cs at hne halone hstring ⊢
  obtain ⟨c, more, rfl⟩ := List.exists_cons_of_ne_nil hne
  unfold Lexeme.next? at halone
  rw [hstring] at halone
  by_cases hstart : Word.isStart c = true
  · -- a name or a reserved word has no quotes in it
    rw [Word.read?, if_pos hstart] at halone
    obtain ⟨-, htext⟩ := Lexeme.token.inj (Prod.mk.inj (Option.some.inj halone)).1
    have hmore : more.takeWhile Word.isPart = more := (List.cons.inj htext).2
    refine StringLiteral.read?_append_eq_none ?_ hne hrest
    rw [List.all_cons, Bool.and_eq_true, List.all_eq_true]
    refine ⟨Word.not_quote_of_isPart (Word.isPart_of_isStart hstart), fun d hd => ?_⟩
    exact Word.not_quote_of_isPart (List.takeWhile_eq_self_iff.1 hmore d hd)
  · -- a number or a mark begins in another way than a literal
    have hquote : c ≠ '"' ∧ c ≠ '\'' := by
      constructor
      · rintro rfl
        cases halone
      · rintro rfl
        cases halone
    exact StringLiteral.read?_eq_none_of_head hquote (Bool.eq_false_iff.2 hstart) (more ++ rest)

/-- No word begins with a blank. -/
theorem isBlank_head (h : IsWord word kind) {c : Char} {more : List Char}
    (hword : word.toList = c :: more) : Gap.isBlank c = false := by
  have halone := h.alone
  have hstring := h.not_string
  rw [hword] at halone hstring
  unfold Lexeme.next? at halone
  rw [hstring] at halone
  refine Bool.eq_false_iff.2 fun hblank => ?_
  simp only [Gap.isBlank, Bool.or_eq_true, beq_iff_eq] at hblank
  obtain ((rfl | rfl) | rfl) | rfl := hblank
  · cases halone
  · cases halone
  · cases halone
  · -- a carriage return may begin a line break
    cases hbreak : Gap.lineBreak? ('\r' :: more) with
    | some s =>
      rw [hbreak] at halone
      cases halone
    | none =>
      rw [hbreak] at halone
      cases halone

/-- No word begins with a line break, a joint of lines or a comment. -/
theorem head_ne (h : IsWord word kind) {c : Char} {more : List Char}
    (hword : word.toList = c :: more) : c ≠ '\n' ∧ c ≠ '\\' ∧ c ≠ '#' := by
  have halone := h.alone
  have hstring := h.not_string
  rw [hword] at halone hstring
  unfold Lexeme.next? at halone
  rw [hstring] at halone
  refine ⟨?_, ?_, ?_⟩
  · rintro rfl
    cases halone
  · rintro rfl
    cases hgap : Gap.read? ('\\' :: more) with
    | none =>
      rw [hgap] at halone
      cases halone
    | some s =>
      rw [hgap] at halone
      cases halone
  · rintro rfl
    cases halone

/-- A word that is followed by a delimiter is the same token. -/
theorem next?_append (h : IsWord word kind) {rest : List Char} (hrest : Delimited rest) :
    Lexeme.next? (word.toList ++ rest) = some (.token kind word.toList, rest) := by
  have hne := h.ne_nil
  have halone := h.alone
  have hstring := h.not_string
  have hstring' := h.not_string_append hrest
  have hblank {c : Char} {more : List Char} (hword : word.toList = c :: more) :=
    h.isBlank_head hword
  have hhead {c : Char} {more : List Char} (hword : word.toList = c :: more) := h.head_ne hword
  generalize word.toList = cs at hne halone hstring hstring' hblank hhead ⊢
  unfold Lexeme.next? at halone ⊢
  rw [hstring] at halone
  rw [hstring', Word.read?_append hne hrest, Numeral.read?_append hne hrest]
  dsimp only at halone ⊢
  cases hword : Word.read? cs with
  | some s =>
    obtain ⟨text, left⟩ := s
    rw [hword] at halone
    cases halone
    rfl
  | none =>
    rw [hword] at halone
    cases hnumber : Numeral.read? cs with
    | some s =>
      obtain ⟨text, left⟩ := s
      rw [hnumber] at halone
      cases halone
      rfl
    | none =>
      rw [hnumber] at halone
      dsimp only [Option.map_none] at halone ⊢
      -- a mark is neither a line break nor a gap, alone or before a delimiter
      cases hbreak : Gap.lineBreak? cs with
      | some s =>
        rw [hbreak] at halone
        cases halone
      | none =>
        rw [hbreak] at halone
        cases hgap : Gap.read? cs with
        | some s =>
          rw [hgap] at halone
          cases halone
        | none =>
          rw [hgap] at halone
          obtain ⟨⟨kind', text, left⟩, hmark, hkind⟩ := Option.map_eq_some_iff.1 halone
          cases hkind
          obtain ⟨c, more, rfl⟩ := List.exists_cons_of_ne_nil hne
          obtain ⟨hline, hother⟩ := hhead rfl
          obtain ⟨hbreak', hgap'⟩ :=
            Gap.eq_none_of_head hline (hblank rfl) hother (more ++ rest)
          rw [List.cons_append, hbreak', hgap', ← List.cons_append,
            TokenKind.mark?_append (List.cons_ne_nil _ _) hrest, hmark]
          rfl

end IsWord

/-- Every mark and every reserved word is a word. -/
theorem isWord_of_lookup {word : String} {kind : TokenKind}
    (h : (TokenKind.marks ++ TokenKind.reservedWords).lookup word = some kind) :
    IsWord word kind := by
  have hwords : ∀ m ∈ TokenKind.marks ++ TokenKind.reservedWords, IsWord m.1 m.2 := by
    decide +kernel
  obtain ⟨before, after, hmem, -⟩ := List.lookup_eq_some_iff.1 h
  exact hwords (word, kind) (by rw [hmem]; simp)

/-- A mark or a reserved word has the kind that it is listed with. -/
theorem IsWord.kind_eq {word : String} {kind kind' : TokenKind} (h : IsWord word kind)
    (hword : (TokenKind.marks ++ TokenKind.reservedWords).lookup word = some kind') :
    kind = kind' :=
  h.unique (isWord_of_lookup hword)

/-- A token that is a word, with the text of the word. -/
structure Token.Spells (t : Token) (word : String) : Prop where
  text : t.text = word
  isWord : IsWord word t.kind

/-! ## Blanks between words -/

/-- One blank before something else is a gap. -/
theorem Lexeme.next?_blank {cs : List Char} (h : ∀ c ∈ cs.head?, Gap.isBlank c = false) :
    next? (' ' :: cs) = some (.gap [' '], cs) := by
  have hrun : Split.run Gap.isBlank cs = ([], cs) := by
    cases cs with
    | nil => rfl
    | cons c more => simp [Split.run, h c rfl]
  rw [next?_blanks rfl rfl, hrun]

/-- No word with more text after it begins with a blank. -/
theorem IsWord.isBlank_head_append {word : String} {kind : TokenKind} (h : IsWord word kind)
    (rest : List Char) : ∀ c ∈ (word.toList ++ rest).head?, Gap.isBlank c = false := by
  obtain ⟨c, more, hword⟩ := List.exists_cons_of_ne_nil h.ne_nil
  intro d hd
  rw [hword] at hd
  obtain rfl := Option.some.inj hd
  exact h.isBlank_head hword

namespace Reader

/-- On a line that has been entered a step takes the next lexeme. -/
theorem step_of_next? {r entered : Reader} (hline : r.enterLine = .ok ([], entered)) {l : Lexeme}
    {rest : List Char} (h : Lexeme.next? entered.rest = some (l, rest)) :
    r.step = .ok (entered.take l rest) :=
  step_eq_ok hline (lexeme_of_next? h)

end Reader

end NoteCheck.Code
