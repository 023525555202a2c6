/-
# A text cut off

A lexeme that ends before the place where a text is cut off is read alike before and after it is.
The main statement is `Lexeme.next?_of_append`.
-/
import NoteCheck.Proofs.Layout.LastBreak

namespace NoteCheck.Code

namespace Split

variable {p : Char → Bool} {cs more text rest : List Char}

/-- Characters of a class that end before more text end there without it. -/
theorem run_of_append (h : run p (cs ++ more) = (text, rest ++ more)) :
    run p cs = (text, rest) := by
  obtain ⟨htake, hdrop⟩ := Prod.mk.inj h
  have hcs : cs = text ++ rest := by
    have hwhole := List.takeWhile_append_dropWhile (p := p) (l := cs ++ more)
    rw [htake, hdrop, ← List.append_assoc] at hwhole
    exact (List.append_cancel_right hwhole).symm
  have htext : ∀ c ∈ text, p c = true := by
    rw [← htake]
    exact fun c hc => List.mem_takeWhile_imp hc
  have hrest : rest.takeWhile p = [] ∧ rest.dropWhile p = rest := by
    cases rest with
    | nil => exact ⟨rfl, rfl⟩
    | cons c rest =>
      have hhead := List.head?_dropWhile_not p (cs ++ more)
      rw [hdrop] at hhead
      have hc : p c = false := by simpa using hhead
      simp [hc]
  rw [run, hcs, List.takeWhile_append_of_pos htext, List.dropWhile_append_of_pos htext, hrest.1,
    hrest.2, List.append_nil]

/-- Where no character of a class comes first before more text, none does without it. -/
theorem run_eq_nil_of_append (h : (run p (cs ++ more)).1 = []) : run p cs = ([], cs) := by
  have hrest : (run p (cs ++ more)).2 = cs ++ more := by
    have hwhole := run_append p (cs ++ more)
    rwa [h] at hwhole
  exact run_of_append (Prod.ext h hrest)

/-- What a reader that can be cut off leaves to the next one is cut off, too. -/
theorem exists_left_of_append {g : List Char → Split} (hwhole : ∀ cs, (g cs).1 ++ (g cs).2 = cs)
    (hcut : ∀ {cs text}, g (cs ++ more) = (text, rest ++ more) → g cs = (text, rest))
    (h : (g cs).2 = rest ++ more) : ∃ left, cs = left ++ more ∧ g left = ((g cs).1, rest) := by
  have hleft : cs = (g cs).1 ++ rest ++ more := by
    rw [List.append_assoc, ← h]
    exact (hwhole cs).symm
  refine ⟨_, hleft, hcut ?_⟩
  rw [← hleft]
  exact Prod.ext rfl h

/-- What is left of a text that is cut off after a piece. -/
theorem Cuts.of_append (h : Cuts (text, rest ++ more) (cs ++ more)) : text ++ rest = cs := by
  have hwhole : text ++ (rest ++ more) = cs ++ more := h.2
  rw [← List.append_assoc] at hwhole
  exact List.append_cancel_right hwhole

end Split

namespace StringLiteral

variable {quote : Char} {cs more rest text : List Char}

/-- What closes a literal in single quotes is no matter of what follows it. -/
theorem closeSingle?_of_piece (hquote : quote ≠ '\\')
    (h : closeSingle? quote cs = some (text, rest))
    (more : List Char) : closeSingle? quote (text ++ more) = some (text, more) := by
  have hcons {c : Char} {cs : List Char} (hescape : c ≠ '\\') :
      closeSingle? quote (c :: cs) =
        if c = quote then some ([c], cs)
        else if c = '\n' ∨ c = '\\' then none
        else (closeSingle? quote cs).map (Split.after [c]) :=
    closeSingle?.eq_3 quote c cs fun _ _ h _ => hescape h
  fun_induction closeSingle? quote cs generalizing text rest with
  | case1 => cases h
  | case2 c cs ih =>
    obtain ⟨⟨piece, after⟩, hpiece, hsplit⟩ := Option.map_eq_some_iff.1 h
    obtain ⟨rfl, rfl⟩ := Prod.mk.inj hsplit
    show closeSingle? quote ('\\' :: c :: (piece ++ more)) = _
    rw [closeSingle?, ih hpiece]
    rfl
  | case3 cs =>
    obtain ⟨rfl, rfl⟩ := Prod.mk.inj (Option.some.inj h)
    exact (hcons hquote).trans (if_pos rfl)
  | case4 => cases h
  | case5 c cs _ hc hplain ih =>
    obtain ⟨⟨piece, after⟩, hpiece, hsplit⟩ := Option.map_eq_some_iff.1 h
    obtain ⟨rfl, rfl⟩ := Prod.mk.inj hsplit
    show closeSingle? quote (c :: (piece ++ more)) = _
    rw [hcons fun h => hplain (.inr h), if_neg hc, if_neg hplain, ih hpiece]
    rfl

/-- What closes a literal in triple quotes has at least the three quotes. -/
theorem three_le_length_of_closeTriple? (h : closeTriple? quote cs = some (text, rest)) :
    3 ≤ text.length := by
  fun_induction closeTriple? quote cs generalizing text rest with
  | case1 =>
    obtain ⟨rfl, -⟩ := Prod.mk.inj (Option.some.inj h)
    exact Nat.le_refl 3
  | case2 a b c cs hopen ih =>
    obtain ⟨⟨piece, after⟩, hpiece, hsplit⟩ := Option.map_eq_some_iff.1 h
    obtain ⟨rfl, -⟩ := Prod.mk.inj hsplit
    exact Nat.le_succ_of_le (ih hpiece)
  | case3 => cases h

/-- What closes a literal in triple quotes is no matter of what follows it. -/
theorem closeTriple?_of_piece (h : closeTriple? quote cs = some (text, rest)) (more : List Char) :
    closeTriple? quote (text ++ more) = some (text, more) := by
  fun_induction closeTriple? quote cs generalizing text rest with
  | case1 a b c cs hclose =>
    obtain ⟨rfl, rfl⟩ := Prod.mk.inj (Option.some.inj h)
    exact if_pos hclose
  | case2 a b c cs hopen ih =>
    obtain ⟨⟨piece, after⟩, hpiece, hsplit⟩ := Option.map_eq_some_iff.1 h
    obtain ⟨rfl, rfl⟩ := Prod.mk.inj hsplit
    have hmore := ih hpiece
    -- the piece begins with the characters that keep the literal open
    obtain ⟨tail, rfl⟩ : ∃ tail, piece = b :: c :: tail := by
      have hlength := three_le_length_of_closeTriple? hpiece
      have hcut : piece ++ after = b :: c :: cs := (cuts_of_closeTriple? hpiece).2
      obtain ⟨first, second, tail, rfl⟩ : ∃ first second tail, piece = first :: second :: tail := by
        obtain _ | ⟨first, _ | ⟨second, tail⟩⟩ := piece
        · cases hlength
        · simp at hlength
        · exact ⟨first, second, tail, rfl⟩
      obtain ⟨hfirst, hcut⟩ := List.cons.inj hcut
      obtain ⟨hsecond, -⟩ := List.cons.inj hcut
      exact ⟨tail, by rw [hfirst, hsecond]⟩
    show closeTriple? quote (a :: b :: c :: (tail ++ more)) = _
    rw [closeTriple?, if_neg hopen]
    show Option.map _ (closeTriple? quote (b :: c :: tail ++ more)) = _
    rw [hmore]
    rfl
  | case3 => cases h

/-- A literal in triple quotes is no matter of what follows it. -/
theorem triple?_of_piece (h : triple? cs = some (text, rest)) (more : List Char) :
    triple? (text ++ more) = some (text, more) := by
  unfold triple? at h
  split at h
  · rename_i a b c cs
    split at h
    · rename_i hopen
      obtain ⟨⟨piece, after⟩, hpiece, hsplit⟩ := Option.map_eq_some_iff.1 h
      obtain ⟨rfl, rfl⟩ := Prod.mk.inj hsplit
      show triple? (a :: b :: c :: (piece ++ more)) = _
      rw [triple?, if_pos hopen, closeTriple?_of_piece hpiece]
      rfl
    · cases h
  · cases h

/-- A literal in single quotes is no matter of what follows it. -/
theorem single?_of_piece (h : single? cs = some (text, rest)) (more : List Char) :
    single? (text ++ more) = some (text, more) := by
  unfold single? at h
  split at h
  · rename_i quote cs
    split at h
    · rename_i hopen
      obtain ⟨⟨piece, after⟩, hpiece, hsplit⟩ := Option.map_eq_some_iff.1 h
      obtain ⟨rfl, rfl⟩ := Prod.mk.inj hsplit
      have hquote : quote ≠ '\\' := by obtain rfl | rfl := hopen <;> decide
      show single? (quote :: (piece ++ more)) = _
      rw [single?, if_pos hopen, closeSingle?_of_piece hquote hpiece]
      rfl
    · cases h
  · cases h

/-! ## Whole literals -/

/-- A literal in triple quotes and the rest are the text. -/
theorem cut_triple? (h : triple? cs = some (text, rest)) : text ++ rest = cs :=
  (cuts_of_body? (by rw [body?, h]; rfl)).2

/-- A literal is found where more text follows, if perhaps a longer one. -/
theorem body?_append_ne_none (h : body? cs = some (text, rest)) (more : List Char) :
    body? (cs ++ more) ≠ none := by
  have hcut : text ++ rest = cs := (cuts_of_body? h).2
  rw [← hcut, List.append_assoc, body?]
  obtain h | h := Split.of_orElse h
  · rw [triple?_of_piece h]
    exact Option.some_ne_none _
  · rw [single?_of_piece h]
    cases triple? (text ++ (rest ++ more)) <;> exact Option.some_ne_none _

/-- A literal that ends before more text is found without it. -/
theorem body?_of_append (h : body? (cs ++ more) = some (text, rest ++ more)) :
    body? cs = some (text, rest) := by
  have hcut : text ++ (rest ++ more) = cs ++ more := (cuts_of_body? h).2
  rw [← List.append_assoc] at hcut
  obtain rfl := List.append_cancel_right hcut
  cases hwhole : triple? (text ++ rest ++ more) with
  | some s =>
    rw [body?, hwhole] at h
    obtain rfl := Option.some.inj h
    rw [body?, triple?_of_piece hwhole]
    rfl
  | none =>
    have htriple : triple? (text ++ rest) = none := by
      by_contra hsome
      obtain ⟨⟨piece, after⟩, hpiece⟩ := Option.ne_none_iff_exists'.1 hsome
      have hlonger := triple?_of_piece hpiece (after ++ more)
      rw [← List.append_assoc, cut_triple? hpiece, hwhole] at hlonger
      cases hlonger
    rw [body?, hwhole] at h
    rw [body?, htriple]
    exact single?_of_piece h rest

/-! ## Marks before a literal -/

/-- What is read after the marks before a literal begins with a quote. -/
theorem exists_quote_of_body? {s : Split} (h : body? cs = some s) :
    ∃ quote more, cs = quote :: more ∧ (quote = '"' ∨ quote = '\'') := by
  rcases Split.of_orElse h with h | h
  · unfold triple? at h
    split at h
    · split at h
      · rename_i hopen
        exact ⟨_, _, rfl, hopen.1⟩
      · cases h
    · cases h
  · unfold single? at h
    split at h
    · split at h
      · exact ⟨_, _, rfl, ‹_›⟩
      · cases h
    · cases h

/-- The marks before a quote are found whatever follows the quote. -/
theorem lead_append_quote {marks : List Char} (hlength : marks.length ≤ 2)
    (hmarks : ∀ c ∈ marks, (c != '"' && c != '\'') = true) {quote : Char}
    (hquote : quote = '"' ∨ quote = '\'') (cs : List Char) :
    lead (marks ++ quote :: cs) = marks := by
  have hstop : (quote != '"' && quote != '\'') = false := by
    rcases hquote with rfl | rfl <;> rfl
  obtain ⟨n, hn⟩ : ∃ n, 3 - marks.length = n + 1 := ⟨2 - marks.length, by omega⟩
  rw [lead, List.take_append, hn, List.take_succ_cons, List.take_of_length_le (by omega),
    List.takeWhile_append_of_pos hmarks, List.takeWhile_cons, hstop]
  exact List.append_nil marks

/-- A string literal: marks, and then what begins with a quote. -/
theorem read?_eq_some_iff : read? cs = some (text, rest) ↔
    ∃ marks literal piece, cs = marks ++ literal ∧ text = marks ++ piece ∧
      leads.contains (marks.map Char.toLower) = true ∧
      (∀ c ∈ marks, (c != '"' && c != '\'') = true) ∧ body? literal = some (piece, rest) := by
  constructor
  · intro h
    rw [read?] at h
    split at h
    · rename_i hleads
      obtain ⟨⟨piece, after⟩, hbody, hsplit⟩ := Option.map_eq_some_iff.1 h
      obtain ⟨rfl, rfl⟩ := Prod.mk.inj hsplit
      exact ⟨lead cs, _, piece, (lead_append_drop cs).symm, rfl, hleads,
        fun c hc => List.all_eq_true.1 List.all_takeWhile c hc, hbody⟩
    · cases h
  · rintro ⟨marks, literal, piece, rfl, rfl, hleads, hplain, hbody⟩
    have hlead : lead (marks ++ literal) = marks := by
      obtain ⟨quote, more, rfl, hquote⟩ := exists_quote_of_body? hbody
      have hle : ∀ marks ∈ leads, marks.length ≤ 2 := by decide
      have hlength := hle _ (List.contains_iff_mem.1 hleads)
      rw [List.length_map] at hlength
      exact lead_append_quote hlength hplain hquote more
    rw [read?, hlead, if_pos hleads, List.drop_left, hbody]
    rfl

/-- A string literal that ends before more text is found without it. -/
theorem read?_of_append (h : read? (cs ++ more) = some (text, rest ++ more)) :
    read? cs = some (text, rest) := by
  have hcut := Split.Cuts.of_append (cuts_of_read? h)
  obtain ⟨marks, literal, piece, hcs, rfl, hleads, hplain, hbody⟩ := read?_eq_some_iff.1 h
  have hliteral : literal = piece ++ rest ++ more := by
    have hpiece : piece ++ (rest ++ more) = literal := (cuts_of_body? hbody).2
    rw [← hpiece, List.append_assoc]
  rw [hliteral] at hbody
  exact read?_eq_some_iff.2 ⟨marks, piece ++ rest, piece, by rw [← hcut, List.append_assoc], rfl,
    hleads, hplain, body?_of_append hbody⟩

/-- Where no string literal is found before more text, none is found without it. -/
theorem read?_eq_none_of_append (h : read? (cs ++ more) = none) : read? cs = none := by
  by_contra hsome
  obtain ⟨⟨text, rest⟩, hread⟩ := Option.ne_none_iff_exists'.1 hsome
  obtain ⟨marks, literal, piece, rfl, rfl, hleads, hplain, hbody⟩ := read?_eq_some_iff.1 hread
  obtain ⟨⟨piece', rest'⟩, hlonger⟩ :=
    Option.ne_none_iff_exists'.1 (body?_append_ne_none hbody more)
  rw [List.append_assoc, read?_eq_some_iff.2 ⟨marks, _, piece', rfl, rfl, hleads, hplain,
    hlonger⟩] at h
  cases h

end StringLiteral

/-! ## Words and numbers -/

/-- A name that ends before more text is read without it. -/
theorem Word.read?_of_append {cs more text rest : List Char}
    (h : read? (cs ++ more) = some (text, rest ++ more)) : read? cs = some (text, rest) := by
  have hcut := Split.Cuts.of_append (cuts_of_read? h)
  have hne := (cuts_of_read? h).1
  obtain ⟨c, cs, rfl⟩ := List.exists_cons_of_ne_nil
    (show cs ≠ [] by rw [← hcut]; exact List.append_ne_nil_of_left_ne_nil hne rest)
  rw [List.cons_append, read?] at h
  split at h
  · rename_i hstart
    obtain ⟨htext, hrest⟩ := Prod.mk.inj (Option.some.inj h)
    rw [read?, if_pos hstart, Split.run_of_append (Prod.ext rfl hrest), ← htext]
    rfl
  · cases h

/-- A text does not begin with a name if it does not with more text after it. -/
theorem Word.read?_eq_none_of_append {cs more : List Char} (h : read? (cs ++ more) = none) :
    read? cs = none := by
  cases cs with
  | nil => rfl
  | cons c cs =>
    rw [List.cons_append, read?] at h
    rw [read?]
    split at h
    · cases h
    · rw [if_neg ‹_›]

namespace Numeral

variable {cs more text rest : List Char}

/-- A fraction that ends before more text is read without it. -/
theorem fraction_of_append (h : fraction (cs ++ more) = (text, rest ++ more)) :
    fraction cs = (text, rest) := by
  have hcut : text ++ rest = cs := by
    have hwhole := fraction_append (cs ++ more)
    rw [h, ← List.append_assoc] at hwhole
    exact List.append_cancel_right hwhole
  cases cs with
  | nil =>
    obtain ⟨rfl, rfl⟩ := List.append_eq_nil_iff.1 hcut
    rfl
  | cons c cs =>
    by_cases hc : c = '.'
    · subst hc
      rw [List.cons_append, fraction] at h
      obtain ⟨htext, hrest⟩ := Prod.mk.inj h
      rw [fraction, Split.run_of_append (Prod.ext rfl hrest), ← htext]
      rfl
    · rw [List.cons_append, fraction.eq_2 _ (by simp [hc])] at h
      obtain ⟨rfl, -⟩ := Prod.mk.inj h
      rw [fraction.eq_2 _ (by simp [hc]), ← hcut]
      rfl

/-- The digits of an exponent that end before more text are read without it. -/
theorem exponentDigits_of_append {lead : List Char}
    (h : exponentDigits lead (cs ++ more) = (text, rest ++ more)) :
    exponentDigits lead cs = (text, rest) := by
  rw [exponentDigits] at h ⊢
  by_cases hdigits : (Split.run isDigitPart (cs ++ more)).1 = []
  · rw [if_pos hdigits, ← List.append_assoc] at h
    obtain ⟨rfl, hrest⟩ := Prod.mk.inj h
    rw [Split.run_eq_nil_of_append hdigits, if_pos rfl, List.append_cancel_right hrest]
  · rw [if_neg hdigits] at h
    obtain ⟨htext, hrest⟩ := Prod.mk.inj h
    rw [Split.run_of_append (Prod.ext rfl hrest), if_neg hdigits, ← htext]
    rfl

/-- An exponent has a digit after its mark and its sign. -/
theorem length_exponentDigits (lead cs : List Char) : (exponentDigits lead cs).1 = [] ∨
    lead.length < (exponentDigits lead cs).1.length := by
  rw [exponentDigits]
  split
  · exact .inl rfl
  · rename_i hdigits
    have hpos := List.length_pos_iff.2 hdigits
    refine .inr ?_
    show lead.length < (lead ++ _).length
    rw [List.length_append]
    omega

/-- An exponent without a sign begins with its digits. -/
theorem exponent_of_unsigned {e c : Char} (he : e = 'e' ∨ e = 'E') (hplus : c ≠ '+')
    (hminus : c ≠ '-') (cs : List Char) :
    exponent (e :: c :: cs) = exponentDigits [e] (c :: cs) := by
  simp [exponent, he, hplus, hminus]

/-- An exponent that ends before more text is read without it. -/
theorem exponent_of_append (h : exponent (cs ++ more) = (text, rest ++ more)) :
    exponent cs = (text, rest) := by
  have hcut : text ++ rest = cs := by
    have hwhole := exponent_append (cs ++ more)
    rw [h, ← List.append_assoc] at hwhole
    exact List.append_cancel_right hwhole
  cases cs with
  | nil =>
    obtain ⟨rfl, rfl⟩ := List.append_eq_nil_iff.1 hcut
    rfl
  | cons e cs =>
    by_cases he : e = 'e' ∨ e = 'E'
    · cases cs with
      | nil =>
        -- the digits of the exponent would be after the cut
        have hempty (lead digits : List Char) (hlead : 1 ≤ lead.length)
            (hdigits : exponentDigits lead digits = (text, rest ++ more)) :
            exponentDigits [e] [] = (text, rest) := by
          obtain hnil | hless := length_exponentDigits lead digits
          · rw [hdigits] at hnil
            obtain rfl : text = [] := hnil
            obtain rfl : rest = [e] := hcut
            rfl
          · have hlength := congrArg List.length hcut
            rw [hdigits] at hless
            simp only [List.length_append, List.length_singleton] at hlength hless
            omega
        unfold exponent at h ⊢
        dsimp only [List.cons_append, List.nil_append] at h ⊢
        rw [if_pos he] at h ⊢
        split at h
        · exact hempty _ _ (by simp) h
        · exact hempty _ _ (by simp) h
        · exact hempty _ _ (by simp) h
      | cons sign digits =>
        by_cases hplus : sign = '+'
        · subst hplus
          rw [List.cons_append, List.cons_append, exponent, if_pos he] at h
          rw [exponent, if_pos he]
          exact exponentDigits_of_append h
        · by_cases hminus : sign = '-'
          · subst hminus
            rw [List.cons_append, List.cons_append, exponent, if_pos he] at h
            rw [exponent, if_pos he]
            exact exponentDigits_of_append h
          · rw [List.cons_append, List.cons_append, exponent_of_unsigned he hplus hminus] at h
            rw [exponent_of_unsigned he hplus hminus]
            exact exponentDigits_of_append h
    · unfold exponent at h ⊢
      dsimp only [List.cons_append] at h ⊢
      rw [if_neg he] at h ⊢
      obtain ⟨rfl, -⟩ := Prod.mk.inj h
      rw [← hcut]
      rfl

/-- The mark of an imaginary number that stands before more text is read without it. -/
theorem imaginary_of_append (h : imaginary (cs ++ more) = (text, rest ++ more)) :
    imaginary cs = (text, rest) := by
  have hcut : text ++ rest = cs := by
    have hwhole := imaginary_append (cs ++ more)
    rw [h, ← List.append_assoc] at hwhole
    exact List.append_cancel_right hwhole
  cases cs with
  | nil =>
    obtain ⟨rfl, rfl⟩ := List.append_eq_nil_iff.1 hcut
    rfl
  | cons c cs =>
    rw [List.cons_append, imaginary] at h
    rw [imaginary]
    split at h
    · obtain ⟨rfl, hrest⟩ := Prod.mk.inj h
      rw [if_pos ‹_›, List.append_cancel_right hrest]
    · obtain ⟨rfl, hrest⟩ := Prod.mk.inj h
      rw [if_neg ‹_›, ← hcut]
      rfl

/-- What scales a number and ends before more text is read without it. -/
theorem scale_of_append (h : scale (cs ++ more) = (text, rest ++ more)) :
    scale cs = (text, rest) := by
  rw [scale] at h
  obtain ⟨htext, hrest⟩ := Prod.mk.inj h
  obtain ⟨left, hleft, himaginary⟩ :=
    Split.exists_left_of_append imaginary_append imaginary_of_append hrest
  rw [scale, exponent_of_append (Prod.ext rfl hleft), himaginary, ← htext]
  rfl

/-- A number with a radix that ends before more text is read without it. -/
theorem radix?_of_append (h : radix? (cs ++ more) = some (text, rest ++ more)) :
    radix? cs = some (text, rest) := by
  have hcuts := cuts_of_radix? h
  have hcut := hcuts.of_append
  match cs with
  | [] => exact absurd (List.append_eq_nil_iff.1 hcut).1 hcuts.1
  | [c] =>
    -- the mark of the radix and the digits would be after the cut
    have hlength : 2 ≤ text.length := by
      unfold radix? at h
      split at h
      · obtain ⟨p, -, h⟩ := Option.bind_eq_some_iff.1 h
        dsimp only at h
        split at h
        · cases h
        · obtain ⟨rfl, -⟩ := Prod.mk.inj (Option.some.inj h)
          simp
      · cases h
    have hless := congrArg List.length hcut
    simp only [List.length_append, List.length_singleton] at hless
    omega
  | c :: mark :: digits =>
    by_cases hc : c = '0'
    · subst hc
      rw [List.cons_append, List.cons_append, radix?] at h
      obtain ⟨p, hp, h⟩ := Option.bind_eq_some_iff.1 h
      dsimp only at h
      split at h
      · cases h
      · rename_i hdigits
        obtain ⟨htext, hrest⟩ := Prod.mk.inj (Option.some.inj h)
        have hrun := Split.run_of_append (Prod.ext rfl hrest)
        rw [radix?, hp]
        dsimp only [Option.bind_eq_bind, Option.bind_some]
        rw [hrun, if_neg hdigits, ← htext]
        rfl
    · rw [List.cons_append, radix?.eq_2 _ (by simp [hc])] at h
      cases h

/-- A text does not begin with a radix if it does not with more text after it. -/
theorem radix?_eq_none_of_append (h : radix? (cs ++ more) = none) : radix? cs = none := by
  match cs with
  | [] => rfl
  | [c] => exact radix?.eq_2 _ (by simp)
  | c :: mark :: digits =>
    by_cases hc : c = '0'
    · subst hc
      rw [List.cons_append, List.cons_append, radix?] at h
      rw [radix?]
      cases hp : radixDigit? mark with
      | none => rfl
      | some p =>
        rw [hp] at h
        dsimp only [Option.bind_eq_bind, Option.bind_some] at h ⊢
        split at h
        · rw [Split.run_eq_nil_of_append ‹_›, if_pos rfl]
        · cases h
    · exact radix?.eq_2 _ (by simp [hc])

/-- A decimal number that ends before more text is read without it. -/
theorem decimal?_of_append (h : decimal? (cs ++ more) = some (text, rest ++ more)) :
    decimal? cs = some (text, rest) := by
  have hcuts := cuts_of_decimal? h
  have hcut := hcuts.of_append
  cases cs with
  | nil => exact absurd (List.append_eq_nil_iff.1 hcut).1 hcuts.1
  | cons c cs =>
    by_cases hc : c = '.'
    · subst hc
      cases cs with
      | nil =>
        -- the digit after the point would be after the cut
        have hlength : 2 ≤ text.length := by
          rw [List.singleton_append] at h
          cases more with
          | nil => cases h
          | cons d more =>
            rw [decimal?] at h
            split at h
            · obtain ⟨rfl, -⟩ := Prod.mk.inj (Option.some.inj h)
              simp
            · cases h
        have hless := congrArg List.length hcut
        simp only [List.length_append, List.length_singleton] at hless
        omega
      | cons d digits =>
        rw [List.cons_append, List.cons_append, decimal?] at h
        rw [decimal?]
        split at h
        · obtain ⟨htext, hrest⟩ := Prod.mk.inj (Option.some.inj h)
          rw [if_pos ‹_›, Split.run_of_append (Prod.ext rfl hrest), ← htext]
          rfl
        · cases h
    · have hother : ∀ text, decimal? (c :: text) = if c.isDigit then
          some ((fraction (Split.run isDigitPart text).2).after
            (c :: (Split.run isDigitPart text).1)) else none := by
        intro text
        rw [decimal?.eq_2]
        simp [hc]
      rw [List.cons_append, hother] at h
      rw [hother]
      split at h
      · obtain ⟨htext, hrest⟩ := Prod.mk.inj (Option.some.inj h)
        obtain ⟨left, hleft, hfraction⟩ :=
          Split.exists_left_of_append fraction_append fraction_of_append hrest
        rw [if_pos ‹_›, Split.run_of_append (Prod.ext rfl hleft), hfraction, ← htext]
        rfl
      · cases h

/-- A text does not begin with a decimal number if it does not with more text after it. -/
theorem decimal?_eq_none_of_append (h : decimal? (cs ++ more) = none) : decimal? cs = none := by
  match cs with
  | [] => rfl
  | [c] =>
    by_cases hc : c = '.'
    · subst hc
      rfl
    · rw [List.singleton_append, decimal?.eq_2 _ _ (by simp [hc])] at h
      rw [decimal?.eq_2 _ _ (by simp [hc])]
      split at h
      · cases h
      · rw [if_neg ‹_›]
  | c :: d :: cs =>
    by_cases hc : c = '.'
    · subst hc
      rw [List.cons_append, List.cons_append, decimal?] at h
      rw [decimal?]
      split at h
      · cases h
      · rw [if_neg ‹_›]
    · rw [List.cons_append, decimal?.eq_2 _ _ (by simp [hc])] at h
      rw [decimal?.eq_2 _ _ (by simp [hc])]
      split at h
      · cases h
      · rw [if_neg ‹_›]

/-- A number that ends before more text is read without it. -/
theorem read?_of_append (h : read? (cs ++ more) = some (text, rest ++ more)) :
    read? cs = some (text, rest) := by
  rw [read?] at h ⊢
  cases hradix : radix? (cs ++ more) with
  | some s =>
    rw [hradix] at h
    rw [radix?_of_append (hradix.trans h)]
    rfl
  | none =>
    rw [hradix] at h
    obtain ⟨mantissa, hmantissa, hsplit⟩ := Option.map_eq_some_iff.1 h
    obtain ⟨htext, hrest⟩ := Prod.mk.inj hsplit
    obtain ⟨left, hleft, hscale⟩ := Split.exists_left_of_append scale_append scale_of_append hrest
    have hdecimal := decimal?_of_append (hmantissa.trans (congrArg some (Prod.ext rfl hleft)))
    rw [radix?_eq_none_of_append hradix, hdecimal]
    show some ((scale left).after mantissa.1) = _
    rw [hscale, ← htext]
    rfl

/-- A text does not begin with a number if it does not with more text after it. -/
theorem read?_eq_none_of_append (h : read? (cs ++ more) = none) : read? cs = none := by
  rw [read?] at h ⊢
  cases hradix : radix? (cs ++ more) with
  | some s =>
    rw [hradix] at h
    cases h
  | none =>
    rw [hradix] at h
    have hdecimal : decimal? (cs ++ more) = none := Option.map_eq_none_iff.1 h
    rw [radix?_eq_none_of_append hradix, decimal?_eq_none_of_append hdecimal]
    rfl

end Numeral

/-! ## Line breaks, gaps and marks -/

namespace Gap

variable {cs more text rest : List Char}

/-- A line break that ends before more text is read without it. -/
theorem lineBreak?_of_append (h : lineBreak? (cs ++ more) = some (text, rest ++ more)) :
    lineBreak? cs = some (text, rest) := by
  have hcuts := cuts_of_lineBreak? h
  have hcut := hcuts.of_append
  unfold lineBreak? at h
  split at h
  · obtain ⟨rfl, -⟩ := Prod.mk.inj (Option.some.inj h)
    rw [← hcut]
    rfl
  · obtain ⟨rfl, -⟩ := Prod.mk.inj (Option.some.inj h)
    rw [← hcut]
    rfl
  · cases h

/-- A text does not begin with a line break if it does not with more text after it. -/
theorem lineBreak?_eq_none_of_append (h : lineBreak? (cs ++ more) = none) :
    lineBreak? cs = none := by
  unfold lineBreak? at h ⊢
  split <;> simp_all

/-- A gap that ends before more text is read without it. -/
theorem read?_of_append (h : read? (cs ++ more) = some (text, rest ++ more)) :
    read? cs = some (text, rest) := by
  have hcuts := cuts_of_read? h
  have hcut := hcuts.of_append
  obtain ⟨c, cs, rfl⟩ := List.exists_cons_of_ne_nil
    (show cs ≠ [] by rw [← hcut]; exact List.append_ne_nil_of_left_ne_nil hcuts.1 rest)
  rw [List.cons_append] at h
  by_cases hjoint : c = '\\'
  · subst hjoint
    rw [read?_joint] at h ⊢
    obtain ⟨⟨piece, left⟩, hbreak, hsplit⟩ := Option.map_eq_some_iff.1 h
    obtain ⟨rfl, rfl⟩ := Prod.mk.inj hsplit
    rw [lineBreak?_of_append hbreak]
    rfl
  by_cases hcomment : c = '#'
  · subst hcomment
    rw [read?_comment] at h ⊢
    obtain ⟨htext, hrest⟩ := Prod.mk.inj (Option.some.inj h)
    rw [Split.run_of_append (Prod.ext rfl hrest), ← htext]
    rfl
  · rw [read?_blanks hjoint hcomment, ← List.cons_append, blanks?] at h
    rw [read?_blanks hjoint hcomment, blanks?]
    split at h
    · cases h
    · rename_i hblanks
      have hrun := Option.some.inj h
      rw [hrun] at hblanks
      rw [Split.run_of_append hrun, if_neg hblanks]

/-- A text does not begin with a gap if it does not with more text after it. -/
theorem read?_eq_none_of_append (h : read? (cs ++ more) = none) : read? cs = none := by
  cases cs with
  | nil => rfl
  | cons c cs =>
    rw [List.cons_append] at h
    by_cases hjoint : c = '\\'
    · subst hjoint
      rw [read?_joint, Option.map_eq_none_iff] at h
      rw [read?_joint, lineBreak?_eq_none_of_append h]
      rfl
    by_cases hcomment : c = '#'
    · subst hcomment
      cases h
    · rw [read?_blanks hjoint hcomment, ← List.cons_append, blanks?] at h
      rw [read?_blanks hjoint hcomment, blanks?]
      split at h
      · rw [Split.run_eq_nil_of_append ‹_›, if_pos rfl]
      · cases h

end Gap

/-- A mark that ends before more text is found without it. -/
theorem TokenKind.mark?_of_append {cs more text rest : List Char} {kind : TokenKind}
    (h : mark? (cs ++ more) = some (kind, text, rest ++ more)) :
    mark? cs = some (kind, text, rest) := by
  have hcut := (TokenKind.cuts_of_mark? h).of_append
  unfold mark? at h ⊢
  generalize marks = found at h ⊢
  induction found with
  | nil => cases h
  | cons mark found ih =>
    obtain ⟨word, kind'⟩ := mark
    rw [List.findSome?_cons] at h ⊢
    dsimp only at h ⊢
    cases hmark : word.toList.isPrefixOf? (cs ++ more) with
    | some left =>
      rw [hmark] at h
      obtain ⟨rfl, hsplit⟩ := Prod.mk.inj (Option.some.inj h)
      obtain ⟨rfl, -⟩ := Prod.mk.inj hsplit
      rw [List.isPrefixOf?_eq_some_iff_append_eq.2 hcut]
      rfl
    | none =>
      rw [hmark] at h
      have hnone : word.toList.isPrefixOf? cs = none := by
        rw [Option.eq_none_iff_forall_ne_some] at hmark ⊢
        intro left hleft
        refine hmark (left ++ more) (List.isPrefixOf?_eq_some_iff_append_eq.2 ?_)
        rw [← List.append_assoc, List.isPrefixOf?_eq_some_iff_append_eq.1 hleft]
      rw [hnone]
      exact ih h

/-- A lexeme that ends before more text is read without it. -/
theorem Lexeme.next?_of_append {cs rest more : List Char} {l : Lexeme}
    (h : next? (cs ++ more) = some (l, rest ++ more)) : next? cs = some (l, rest) := by
  unfold next? at h ⊢
  -- one reader after the other: what is read is cut off alike, and what is not stays unread
  cases hstring : StringLiteral.read? (cs ++ more) with
  | some s =>
    rw [hstring] at h
    obtain ⟨rfl, hrest⟩ := Prod.mk.inj (Option.some.inj h)
    rw [StringLiteral.read?_of_append (hstring.trans (congrArg some (Prod.ext rfl hrest)))]
  | none =>
  rw [hstring] at h
  rw [StringLiteral.read?_eq_none_of_append hstring]
  cases hword : Word.read? (cs ++ more) with
  | some s =>
    rw [hword] at h
    obtain ⟨rfl, hrest⟩ := Prod.mk.inj (Option.some.inj h)
    rw [Word.read?_of_append (hword.trans (congrArg some (Prod.ext rfl hrest)))]
  | none =>
  rw [hword] at h
  rw [Word.read?_eq_none_of_append hword]
  cases hnumber : Numeral.read? (cs ++ more) with
  | some s =>
    rw [hnumber] at h
    obtain ⟨rfl, hrest⟩ := Prod.mk.inj (Option.some.inj h)
    rw [Numeral.read?_of_append (hnumber.trans (congrArg some (Prod.ext rfl hrest)))]
  | none =>
  rw [hnumber] at h
  rw [Numeral.read?_eq_none_of_append hnumber]
  cases hbreak : Gap.lineBreak? (cs ++ more) with
  | some s =>
    rw [hbreak] at h
    obtain ⟨rfl, hrest⟩ := Prod.mk.inj (Option.some.inj h)
    rw [Gap.lineBreak?_of_append (hbreak.trans (congrArg some (Prod.ext rfl hrest)))]
  | none =>
  rw [hbreak] at h
  rw [Gap.lineBreak?_eq_none_of_append hbreak]
  cases hgap : Gap.read? (cs ++ more) with
  | some s =>
    rw [hgap] at h
    obtain ⟨rfl, hrest⟩ := Prod.mk.inj (Option.some.inj h)
    rw [Gap.read?_of_append (hgap.trans (congrArg some (Prod.ext rfl hrest)))]
  | none =>
    rw [hgap] at h
    rw [Gap.read?_eq_none_of_append hgap]
    obtain ⟨⟨kind, text, left⟩, hmark, hsplit⟩ := Option.map_eq_some_iff.1 h
    obtain ⟨rfl, rfl⟩ := Prod.mk.inj hsplit
    rw [TokenKind.mark?_of_append hmark]
    rfl

end NoteCheck.Code
