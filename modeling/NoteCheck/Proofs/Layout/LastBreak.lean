/-
# A line break after the text

No lexeme is read otherwise where a line break follows the text, except for a carriage return at its
end, which becomes a part of the line break. The main statement is `Lexeme.next?_append_lineBreak`.
-/
import NoteCheck.Proofs.Layout.Words

namespace NoteCheck.Code

theorem Split.map_followed_after (rest lead : List Char) (o : Option Split) :
    (o.map (Split.followed rest)).map (Split.after lead) =
      (o.map (Split.after lead)).map (Split.followed rest) := by
  cases o <;> rfl

/-- What is no line break is taken up to the line break. -/
theorem Split.run_append_of_break {p : Char → Bool} (hp : p '\n' = false) (cs more : List Char) :
    run p (cs ++ '\n' :: more) = (run p cs).followed ('\n' :: more) := by
  induction cs with
  | nil => simp [run, followed, hp]
  | cons c cs ih =>
    obtain ⟨hfirst, hsecond⟩ := Prod.mk.inj ih
    by_cases hc : p c = true
    · simp_all [run, followed]
    · simp_all [run, followed]

namespace StringLiteral

variable {quote : Char}

/-- A line break closes no literal in single quotes. -/
theorem closeSingle?_append (hquote : quote ≠ '\n' ∧ quote ≠ '\\') (cs : List Char) :
    closeSingle? quote (cs ++ ['\n']) = (closeSingle? quote cs).map (Split.followed ['\n']) := by
  have hcons {c : Char} {rest : List Char} (hescape : c ≠ '\\') :
      closeSingle? quote (c :: rest) =
        if c = quote then some ([c], rest)
        else if c = '\n' ∨ c = '\\' then none
        else (closeSingle? quote rest).map (Split.after [c]) :=
    closeSingle?.eq_3 quote c rest fun _ _ h _ => hescape h
  -- by induction on the length, as an escape takes two characters
  induction h : cs.length using Nat.strong_induction_on generalizing cs with
  | _ n ih =>
    subst h
    cases cs with
    | nil => simp [closeSingle?, hquote.1.symm]
    | cons c rest =>
      by_cases hescape : c = '\\'
      · subst hescape
        cases rest with
        | nil => simp [closeSingle?, hquote.2.symm]
        | cons d rest =>
          have hrest := ih rest.length (by simp only [List.length_cons]; omega) rest rfl
          show closeSingle? quote ('\\' :: d :: (rest ++ ['\n'])) = _
          rw [closeSingle?, closeSingle?, hrest, Split.map_followed_after]
      · have hrest := ih rest.length (by simp) rest rfl
        rw [List.cons_append, hcons hescape, hcons hescape, hrest]
        split
        · rfl
        split
        · rfl
        · exact Split.map_followed_after ..

/-- A line break closes no literal in triple quotes. -/
theorem closeTriple?_append (hquote : quote ≠ '\n') (cs : List Char) :
    closeTriple? quote (cs ++ ['\n']) = (closeTriple? quote cs).map (Split.followed ['\n']) := by
  fun_induction closeTriple? quote cs with
  | case1 a b c rest hclose =>
    rw [List.cons_append, List.cons_append, List.cons_append, closeTriple?, if_pos hclose]
    rfl
  | case2 a b c rest hopen ih =>
    rw [List.cons_append, List.cons_append, List.cons_append, closeTriple?, if_neg hopen,
      ← List.cons_append, ← List.cons_append, ih, Split.map_followed_after]
  | case3 cs hshort =>
    match cs with
    | [] => rfl
    | [a] => rfl
    | [a, b] => simp [closeTriple?, hquote.symm]
    | a :: b :: c :: rest => exact absurd rfl (hshort a b c rest)

theorem body?_append (cs : List Char) :
    body? (cs ++ ['\n']) = (body? cs).map (Split.followed ['\n']) := by
  have hquote {c : Char} (hc : c = '"' ∨ c = '\'') : c ≠ '\n' ∧ c ≠ '\\' := by
    obtain rfl | rfl := hc <;> decide
  have htriple : triple? (cs ++ ['\n']) = (triple? cs).map (Split.followed ['\n']) := by
    -- fewer than three characters open no triple quotes, and a line break is no quote
    match cs with
    | [] => rfl
    | [a] => rfl
    | [a, b] =>
      show (if _ then _ else none) = _
      rw [if_neg]
      · rfl
      · rintro ⟨ha, -, hbreak⟩
        exact (hquote ha).1 hbreak.symm
    | a :: b :: c :: rest =>
      rw [List.cons_append, List.cons_append, List.cons_append, triple?, triple?]
      by_cases hopen : (a = '"' ∨ a = '\'') ∧ b = a ∧ c = a
      · rw [if_pos hopen, if_pos hopen, closeTriple?_append (hquote hopen.1).1,
          Split.map_followed_after]
      · rw [if_neg hopen, if_neg hopen]
        rfl
  have hsingle : single? (cs ++ ['\n']) = (single? cs).map (Split.followed ['\n']) := by
    cases cs with
    | nil => rfl
    | cons c rest =>
      rw [List.cons_append, single?, single?]
      by_cases hopen : c = '"' ∨ c = '\''
      · rw [if_pos hopen, if_pos hopen, closeSingle?_append (hquote hopen),
          Split.map_followed_after]
      · rw [if_neg hopen, if_neg hopen]
        rfl
  rw [body?, body?, htriple, hsingle]
  cases triple? cs <;> rfl

/-- With the same marks before the first quote, the literal is the same. -/
theorem read?_append_of_lead {cs : List Char} (hlead : lead (cs ++ ['\n']) = lead cs) :
    read? (cs ++ ['\n']) = (read? cs).map (Split.followed ['\n']) := by
  have hle : (lead cs).length ≤ cs.length := by
    have hlength := congrArg List.length (lead_append_drop cs)
    rw [List.length_append] at hlength
    omega
  rw [read?, read?, hlead, List.drop_append_of_le_length hle, body?_append]
  split
  · exact Split.map_followed_after ..
  · rfl

/-- A line break after the text changes no string literal. -/
theorem read?_append_lineBreak (cs : List Char) :
    read? (cs ++ ['\n']) = (read? cs).map (Split.followed ['\n']) := by
  have hbody : body? [] = none := rfl
  match cs with
  | [] => rfl
  | [a] =>
    by_cases ha : a = '"' ∨ a = '\''
    · exact read?_append_of_lead (by obtain rfl | rfl := ha <;> rfl)
    · rw [not_or] at ha
      simp [read?, lead, ha, leads, hbody]
  | [a, b] =>
    by_cases ha : a = '"' ∨ a = '\''
    · exact read?_append_of_lead (by obtain rfl | rfl := ha <;> rfl)
    by_cases hb : b = '"' ∨ b = '\''
    · refine read?_append_of_lead ?_
      rw [not_or] at ha
      obtain rfl | rfl := hb <;> simp [lead, ha]
    · rw [not_or] at ha hb
      simp [read?, lead, ha, hb, leads, hbody]
  | a :: b :: c :: rest => exact read?_append_of_lead rfl

end StringLiteral

namespace Split

variable {p : Char → Bool} {cs more : List Char}

/-- A piece that ends before the end of the text does not go on in what follows the text. -/
theorem run_append_of_ne_nil (h : (run p cs).2 ≠ []) :
    run p (cs ++ more) = (run p cs).followed more := by
  obtain ⟨c, rest, hrest⟩ := List.exists_cons_of_ne_nil h
  have hcs : cs = (run p cs).1 ++ c :: rest := by rw [← hrest, run_append]
  have hfirst : ∀ d ∈ (run p cs).1, p d = true := fun d hd => List.mem_takeWhile_imp hd
  have hc : p c = false := by
    have hhead := List.head?_dropWhile_not p cs
    rw [show cs.dropWhile p = c :: rest from hrest] at hhead
    simpa using hhead
  rw [followed, hrest]
  conv_lhs => rw [hcs]
  rw [run, List.append_assoc, List.takeWhile_append_of_pos hfirst,
    List.dropWhile_append_of_pos hfirst, List.cons_append,
    List.takeWhile_cons_of_neg (by simp [hc]),
    List.dropWhile_cons_of_neg (by simp [hc]), List.append_nil]

end Split

namespace Gap

variable {more : List Char}

/-- Only a carriage return at the end of the text becomes a part of the line break after it. -/
theorem lineBreak?_append {cs : List Char} (hne : cs ≠ []) (hreturn : cs ≠ ['\r']) :
    lineBreak? (cs ++ more) = (lineBreak? cs).map (Split.followed more) := by
  match cs with
  | [c] =>
    by_cases hc : c = '\n'
    · subst hc
      rfl
    · have hc' : c ≠ '\r' := fun h => hreturn (by rw [h])
      simp [lineBreak?, hc, hc']
  | c :: d :: rest =>
    rw [List.cons_append, List.cons_append]
    unfold lineBreak?
    split <;> simp_all [Split.followed]

/-- A gap is read alike if it is not a backslash at the end of the text, and if blanks and comments
do not go on in what follows the text. -/
theorem read?_append {cs : List Char} (hne : cs ≠ []) (hjoint : cs ≠ ['\\'] ∧ cs ≠ ['\\', '\r'])
    (hblanks : Split.run isBlank (cs ++ more) = (Split.run isBlank cs).followed more)
    (hcomment : ∀ text, cs = '#' :: text →
      Split.run (· != '\n') (text ++ more) = (Split.run (· != '\n') text).followed more) :
    read? (cs ++ more) = (read? cs).map (Split.followed more) := by
  obtain ⟨c, cs, rfl⟩ := List.exists_cons_of_ne_nil hne
  by_cases hfirst : c = '\\'
  · subst hfirst
    rw [List.cons_append, read?_joint, read?_joint,
      lineBreak?_append (fun h => hjoint.1 (by rw [h])) (fun h => hjoint.2 (by rw [h])),
      Split.map_followed_after]
  by_cases hmark : c = '#'
  · subst hmark
    rw [List.cons_append, read?_comment, read?_comment, hcomment cs rfl]
    rfl
  · rw [List.cons_append, read?_blanks hfirst hmark, read?_blanks hfirst hmark, ← List.cons_append,
      blanks?, blanks?, hblanks, Split.followed]
    split <;> rfl

end Gap

/-- What is left after a lexeme is shorter. -/
theorem Lexeme.length_lt_of_next? {cs rest : List Char} {l : Lexeme}
    (h : next? cs = some (l, rest)) : rest.length < cs.length :=
  Split.Cuts.length_lt (s := (l.text, rest)) (next?_eq_some h)

/-- A lexeme is read alike before a delimiter, if a string literal, a line break and a gap are. -/
theorem Lexeme.next?_append {cs more : List Char} (hne : cs ≠ []) (hmore : Delimited more)
    (hstring : StringLiteral.read? (cs ++ more) =
      (StringLiteral.read? cs).map (Split.followed more))
    (hbreak : Gap.lineBreak? (cs ++ more) = (Gap.lineBreak? cs).map (Split.followed more))
    (hgap : Gap.read? (cs ++ more) = (Gap.read? cs).map (Split.followed more)) :
    next? (cs ++ more) = (next? cs).map (Prod.map id (· ++ more)) := by
  unfold next?
  rw [hstring, Word.read?_append hne hmore, Numeral.read?_append hne hmore, hbreak, hgap,
    TokenKind.mark?_append hne hmore]
  cases StringLiteral.read? cs with
  | some s => rfl
  | none =>
  cases Word.read? cs with
  | some s => rfl
  | none =>
  cases Numeral.read? cs with
  | some s => rfl
  | none =>
  cases Gap.lineBreak? cs with
  | some s => rfl
  | none =>
  cases Gap.read? cs with
  | some s => rfl
  | none => cases TokenKind.mark? cs <;> rfl

/-- A lexeme is read alike where a line break follows the text, if it is not a carriage return at
the end of the text. -/
theorem Lexeme.next?_append_lineBreak {cs rest : List Char} {l : Lexeme}
    (h : next? cs = some (l, rest)) (hreturn : cs ≠ ['\r']) :
    next? (cs ++ ['\n']) = some (l, rest ++ ['\n']) := by
  have hne : cs ≠ [] := by
    rintro rfl
    cases h
  have hjoint : cs ≠ ['\\'] ∧ cs ≠ ['\\', '\r'] := by
    constructor
    · rintro rfl
      cases h
    · rintro rfl
      cases h
  have hgap : Gap.read? (cs ++ ['\n']) = (Gap.read? cs).map (Split.followed ['\n']) :=
    Gap.read?_append hne hjoint (Split.run_append_of_break rfl cs [])
      fun text _ => Split.run_append_of_break rfl text []
  rw [next?_append hne .lineBreak (StringLiteral.read?_append_lineBreak cs)
    (Gap.lineBreak?_append hne hreturn) hgap, h]
  rfl

end NoteCheck.Code
