/-
# Pieces and lines of a text

What stands before a cut is a piece, and what stands before a line break is a line. The main
statement, `exists_lines_append`: a line of a text is what was written, up to a carriage return
before its line break.
-/
import NoteCheck.Proofs.Text.Trim

namespace NoteCheck.Text

/-- A text without cuts is the first piece of a text in which a cut follows it. -/
theorem piecesBetween_append {isCut : Char → Bool} {piece : List Char} {c : Char}
    (h : ∀ d ∈ piece, isCut d = false) (hc : isCut c = true) (rest : List Char) :
    piecesBetween isCut (piece ++ c :: rest) = piece :: piecesBetween isCut rest := by
  induction piece with
  | nil => rw [List.nil_append, piecesBetween, if_pos hc]
  | cons d piece ih =>
    obtain ⟨hd, hpiece⟩ := List.forall_mem_cons.1 h
    rw [List.cons_append, piecesBetween, if_neg (by simp [hd]), ih hpiece, consFirst]

/-- A text without cuts is one piece. -/
theorem piecesBetween_eq_singleton {isCut : Char → Bool} {cs : List Char}
    (h : ∀ d ∈ cs, isCut d = false) : piecesBetween isCut cs = [cs] := by
  induction cs with
  | nil => rfl
  | cons d cs ih =>
    obtain ⟨hd, hcs⟩ := List.forall_mem_cons.1 h
    rw [piecesBetween, if_neg (by simp [hd]), ih hcs, consFirst]

theorem piecesBetween_ne_nil (isCut : Char → Bool) (cs : List Char) :
    piecesBetween isCut cs ≠ [] := by
  cases cs with
  | nil => exact List.cons_ne_nil _ _
  | cons c cs =>
    rw [piecesBetween]
    split
    · exact List.cons_ne_nil _ _
    · cases piecesBetween isCut cs <;> exact List.cons_ne_nil _ _

/-- At a cut the pieces fall apart. -/
theorem piecesBetween_append_cons {isCut : Char → Bool} {c : Char} (hc : isCut c = true)
    (a b : List Char) :
    piecesBetween isCut (a ++ c :: b) = piecesBetween isCut a ++ piecesBetween isCut b := by
  induction a with
  | nil =>
    show piecesBetween isCut (c :: b) = [] :: piecesBetween isCut b
    rw [piecesBetween, if_pos hc]
  | cons d a ih =>
    rw [List.cons_append, piecesBetween, piecesBetween, ih]
    split
    · rfl
    · obtain ⟨piece, pieces, hpieces⟩ := List.exists_cons_of_ne_nil (piecesBetween_ne_nil isCut a)
      rw [hpieces]
      rfl

/-- The pieces of a text go from the beginning or a cut to the next cut or the end. -/
theorem mem_piecesBetween_iff {isCut : Char → Bool} {cs piece : List Char} :
    piece ∈ piecesBetween isCut cs ↔ ∃ before after, cs = before ++ piece ++ after ∧
      (∀ c ∈ piece, isCut c = false) ∧ (∀ c ∈ before.getLast?, isCut c = true) ∧
      ∀ c ∈ after.head?, isCut c = true := by
  constructor
  · intro h
    -- by induction on the length: a cut takes off the first piece, and the rest is shorter
    induction hn : cs.length using Nat.strong_induction_on generalizing cs with
    | _ n ih =>
    subst hn
    have hfree : ∀ c ∈ cs.takeWhile (!isCut ·), isCut c = false := fun c hc => by
      simpa using List.mem_takeWhile_imp hc
    have hcs := List.takeWhile_append_dropWhile (p := (!isCut ·)) (l := cs)
    cases hrest : cs.dropWhile (!isCut ·) with
    | nil =>
      rw [hrest, List.append_nil] at hcs
      rw [hcs] at hfree
      rw [piecesBetween_eq_singleton hfree, List.mem_singleton] at h
      exact ⟨[], [], by simp [h], h ▸ hfree, nofun, nofun⟩
    | cons c rest =>
      have hc : isCut c = true := by
        have hhead := List.head?_dropWhile_not (!isCut ·) cs
        rw [hrest] at hhead
        simpa using hhead
      rw [hrest] at hcs
      rw [← hcs, piecesBetween_append hfree hc, List.mem_cons] at h
      obtain rfl | h := h
      · refine ⟨[], c :: rest, hcs.symm, hfree, nofun, ?_⟩
        rintro d ⟨⟩
        exact hc
      · have hless : rest.length < cs.length := by
          rw [← hcs, List.length_append, List.length_cons]
          omega
        obtain ⟨before, after, hsplit, hpiece, hbefore, hafter⟩ := ih _ hless h rfl
        refine ⟨cs.takeWhile (!isCut ·) ++ c :: before, after, ?_, hpiece, ?_, hafter⟩
        · conv_lhs => rw [← hcs, hsplit]
          simp
        · rw [List.getLast?_append_of_ne_nil _ (List.cons_ne_nil c before), List.getLast?_cons]
          cases hlast : before.getLast? with
          | none =>
            rintro d ⟨⟩
            exact hc
          | some d =>
            rintro e ⟨⟩
            exact hbefore d hlast
  · rintro ⟨before, after, rfl, hpiece, hbefore, hafter⟩
    have hrest : piece ∈ piecesBetween isCut (piece ++ after) := by
      cases after with
      | nil =>
        rw [List.append_nil, piecesBetween_eq_singleton hpiece]
        exact List.mem_singleton_self piece
      | cons c after =>
        rw [piecesBetween_append hpiece (hafter c rfl)]
        exact List.mem_cons_self
    -- the piece is the first of all, or a cut stands just before it
    rcases List.eq_nil_or_concat before with rfl | ⟨before, c, rfl⟩
    · exact hrest
    · have hc : isCut c = true := hbefore c (by simp)
      rw [List.concat_eq_append, List.append_assoc, List.append_assoc, List.singleton_append,
        piecesBetween_append_cons hc]
      exact List.mem_append_right _ hrest

/-! ## Identifiers -/

theorem isIdentifier_iff {cs : List Char} : isIdentifier cs = true ↔
    (∀ c ∈ cs, isIdentifierChar c = true) ∧ cs ≠ [] ∧ ∀ c ∈ cs.head?, c.isDigit = false := by
  cases cs <;> simp [isIdentifier, and_assoc]

/-- An identifier is the only one in its text. -/
theorem identifiers_of_isIdentifier {cs : List Char} (h : isIdentifier cs = true) :
    identifiers cs = [cs] := by
  obtain ⟨hchars, hne, hdigit⟩ := isIdentifier_iff.1 h
  obtain ⟨c, tail, rfl⟩ := List.exists_cons_of_ne_nil hne
  have hstart : (c :: tail).dropWhile Char.isDigit = c :: tail := by
    rw [List.dropWhile_cons_of_neg]
    simp [hdigit c rfl]
  rw [identifiers, piecesBetween_eq_singleton (by simpa using hchars), List.map_singleton, hstart]
  rfl

/-- A word stands in a text as an identifier: with the digits before it, it is not part of a longer
run of letters, digits and underscores. -/
def IsMatch (cs word : List Char) : Prop :=
  isIdentifier word = true ∧ ∃ before digits after, cs = before ++ (digits ++ word) ++ after ∧
    (∀ c ∈ digits, c.isDigit = true) ∧ (∀ c ∈ before.getLast?, isIdentifierChar c = false) ∧
    ∀ c ∈ after.head?, isIdentifierChar c = false

theorem isIdentifierChar_of_isDigit {c : Char} (h : c.isDigit = true) :
    isIdentifierChar c = true := by
  rw [isIdentifierChar, Char.isAlphanum, h, Bool.or_true]
  rfl

/-- The identifiers of a text are the words that stand in it as such. -/
theorem mem_identifiers_iff {cs word : List Char} : word ∈ identifiers cs ↔ IsMatch cs word := by
  rw [identifiers, List.mem_filter, List.mem_map]
  constructor
  · rintro ⟨⟨piece, hpiece, rfl⟩, hne⟩
    obtain ⟨before, after, hcs, hchars, hbefore, hafter⟩ := mem_piecesBetween_iff.1 hpiece
    have hsplit := List.takeWhile_append_dropWhile (p := Char.isDigit) (l := piece)
    refine ⟨isIdentifier_iff.2 ⟨fun c hc => ?_, by simpa using hne, fun c hc => ?_⟩, before,
      piece.takeWhile Char.isDigit, after, by rw [hsplit, hcs],
      fun c hc => List.mem_takeWhile_imp hc, fun c hc => by simpa using hbefore c hc,
      fun c hc => by simpa using hafter c hc⟩
    · simpa using hchars c ((List.dropWhile_suffix Char.isDigit).mem hc)
    · have hhead := List.head?_dropWhile_not Char.isDigit piece
      rw [Option.mem_def] at hc
      rw [hc] at hhead
      simpa using hhead
  · rintro ⟨hword, before, digits, after, hcs, hdigits, hbefore, hafter⟩
    obtain ⟨hchars, hne, hhead⟩ := isIdentifier_iff.1 hword
    have hpiece : ∀ c ∈ digits ++ word, (!isIdentifierChar c) = false := by
      refine List.forall_mem_append.2 ⟨fun c hc => ?_, fun c hc => ?_⟩
      · rw [isIdentifierChar_of_isDigit (hdigits c hc)]
        rfl
      · rw [hchars c hc]
        rfl
    -- the piece is the word with the digits that stand before it
    refine ⟨⟨digits ++ word, mem_piecesBetween_iff.2 ⟨before, after, hcs, hpiece,
      fun c hc => by rw [hbefore c hc]; rfl, fun c hc => by rw [hafter c hc]; rfl⟩, ?_⟩,
      by simpa using hne⟩
    rw [List.dropWhile_append_of_pos hdigits]
    obtain ⟨c, word, rfl⟩ := List.exists_cons_of_ne_nil hne
    rw [List.dropWhile_cons_of_neg]
    simp [hhead c rfl]

/-- No identifier goes across a character that is in none. -/
theorem identifiers_append_cons {c : Char} (hc : isIdentifierChar c = false) (a b : List Char) :
    identifiers (a ++ c :: b) = identifiers a ++ identifiers b := by
  rw [identifiers, piecesBetween_append_cons (by rw [hc]; rfl), List.map_append, List.filter_append]
  rfl

theorem identifiers_intercalate (parts : List (List Char)) :
    identifiers ([',', ' '].intercalate parts) = parts.flatMap identifiers := by
  induction parts with
  | nil => rfl
  | cons part parts ih =>
    cases parts with
    | nil => rw [List.intercalate_singleton, List.flatMap_singleton]
    | cons next parts =>
      rw [List.intercalate_cons_cons, List.append_assoc, List.cons_append,
        identifiers_append_cons rfl, List.singleton_append, ← List.nil_append (' ' :: _),
        identifiers_append_cons rfl, ih, List.flatMap_cons]
      rfl

/-! ## Lines -/

/-- A text of lines that end with line breaks. -/
def unlines (lines : List (List Char)) : List Char := lines.flatMap (· ++ ['\n'])

@[simp] theorem unlines_nil : unlines [] = [] := rfl

theorem unlines_cons (line : List Char) (others : List (List Char)) :
    unlines (line :: others) = line ++ '\n' :: unlines others := by
  simp [unlines]

theorem unlines_append (a b : List (List Char)) : unlines (a ++ b) = unlines a ++ unlines b :=
  List.flatMap_append

theorem count_unlines {ls : List (List Char)} (h : ∀ line ∈ ls, '\n' ∉ line) :
    (unlines ls).count '\n' = ls.length := by
  induction ls with
  | nil => rfl
  | cons line ls ih =>
    obtain ⟨hline, hls⟩ := List.forall_mem_cons.1 h
    rw [unlines_cons, List.count_append, List.count_eq_zero.2 hline, List.count_cons_self, ih hls,
      Nat.zero_add, List.length_cons]

theorem getLast?_unlines (ls : List (List Char)) : ∀ c ∈ (unlines ls).getLast?, c = '\n' := by
  rcases List.eq_nil_or_concat ls with rfl | ⟨others, line, rfl⟩
  · exact nofun
  · rw [List.concat_eq_append, unlines_append, unlines_cons, unlines_nil, ← List.append_assoc,
      List.getLast?_concat]
    rintro c hc
    exact (Option.some.inj hc).symm

theorem piecesBetween_unlines {ls : List (List Char)} (h : ∀ line ∈ ls, '\n' ∉ line) :
    piecesBetween (· == '\n') (unlines ls) = ls ++ [[]] := by
  induction ls with
  | nil => rfl
  | cons line ls ih =>
    obtain ⟨hline, hls⟩ := List.forall_mem_cons.1 h
    have hfree : ∀ c ∈ line, (c == '\n') = false := fun c hc =>
      beq_eq_false_iff_ne.2 fun hbreak => hline (hbreak ▸ hc)
    rw [unlines_cons, piecesBetween_append hfree rfl, ih hls, List.cons_append]

/-- Lines without line breaks in them can be told apart in a text. -/
theorem eq_of_unlines_eq {ls ls' : List (List Char)} (h : ∀ line ∈ ls, '\n' ∉ line)
    (h' : ∀ line ∈ ls', '\n' ∉ line) (heq : unlines ls = unlines ls') : ls = ls' := by
  have hpieces : ls ++ [[]] = ls' ++ [[]] := by
    rw [← piecesBetween_unlines h, ← piecesBetween_unlines h', heq]
  exact List.append_cancel_right hpieces

theorem identifiers_unlines (ls : List (List Char)) :
    identifiers (unlines ls) = ls.flatMap identifiers := by
  induction ls with
  | nil => rfl
  | cons line ls ih => rw [unlines_cons, identifiers_append_cons rfl, ih, List.flatMap_cons]

/-- A character that is no part of a line break belongs to the first line. -/
theorem lines_cons {c : Char} {rest : List Char} (hc : c ≠ '\n')
    (hreturn : c = '\r' → rest.head? ≠ some '\n') :
    lines (c :: rest) = consFirst c (lines rest) := by
  rw [lines]
  · exact hc
  · rintro cs rfl rfl
    exact hreturn rfl rfl

/-- What stands before a line break is a line, without a carriage return at its end. -/
theorem exists_lines_append {line : List Char} (h : '\n' ∉ line) (rest : List Char) :
    ∃ shown, lines (line ++ '\n' :: rest) = shown :: lines rest ∧
      (shown = line ∨ line = shown ++ ['\r']) := by
  induction line with
  | nil => exact ⟨[], by rw [List.nil_append, lines], .inl rfl⟩
  | cons c line ih =>
    obtain ⟨hc, hline⟩ := List.ne_and_not_mem_of_not_mem_cons h
    by_cases hreturn : c = '\r' ∧ line = []
    · obtain ⟨rfl, rfl⟩ := hreturn
      exact ⟨[], by rw [List.cons_append, List.nil_append, lines], .inr rfl⟩
    · obtain ⟨shown, hlines, hshown⟩ := ih hline
      refine ⟨c :: shown, ?_, ?_⟩
      · rw [List.cons_append, lines_cons hc.symm, hlines, consFirst]
        intro hc
        cases line with
        | nil => exact absurd ⟨hc, rfl⟩ hreturn
        | cons d line =>
          rintro ⟨⟩
          exact hline List.mem_cons_self
      · obtain rfl | rfl := hshown
        · exact .inl rfl
        · exact .inr rfl

/-- A line without a carriage return at its end is shown as it is. -/
theorem lines_append {line : List Char} (h : '\n' ∉ line) (hlast : line.getLast? ≠ some '\r')
    (rest : List Char) : lines (line ++ '\n' :: rest) = line :: lines rest := by
  obtain ⟨shown, hlines, rfl | rfl⟩ := exists_lines_append h rest
  · exact hlines
  · simp at hlast

/-- A carriage return before the line break is not shown. -/
theorem lines_append_return {line : List Char} (h : '\n' ∉ line) (rest : List Char) :
    lines (line ++ '\r' :: '\n' :: rest) = line :: lines rest := by
  induction line with
  | nil => rw [List.nil_append, lines]
  | cons c line ih =>
    obtain ⟨hc, hline⟩ := List.ne_and_not_mem_of_not_mem_cons h
    rw [List.cons_append, lines_cons hc.symm, ih hline, consFirst]
    rintro -
    cases line with
    | nil => nofun
    | cons d line =>
      rintro ⟨⟩
      exact hline List.mem_cons_self

theorem lines_unlines {ls : List (List Char)}
    (h : ∀ line ∈ ls, '\n' ∉ line ∧ line.getLast? ≠ some '\r') : lines (unlines ls) = ls := by
  induction ls with
  | nil => rfl
  | cons line ls ih =>
    obtain ⟨⟨hline, hlast⟩, hrest⟩ := List.forall_mem_cons.1 h
    rw [unlines_cons, lines_append hline hlast, ih hrest]

/-- A text of lines, each with a line break after it, before which a carriage return may stand. -/
inductive Written : List (List Char) → List Char → Prop
  | nil : Written [] []
  | lineBreak {line ls text} : Written ls text → Written (line :: ls) (line ++ '\n' :: text)
  | returned {line ls text} : Written ls text →
      Written (line :: ls) (line ++ '\r' :: '\n' :: text)

theorem Written.lines_eq {ls : List (List Char)} {text : List Char} (h : Written ls text)
    (hls : ∀ line ∈ ls, '\n' ∉ line ∧ line.getLast? ≠ some '\r') : lines text = ls := by
  induction h with
  | nil => rfl
  | lineBreak _ ih =>
    obtain ⟨⟨hline, hlast⟩, hrest⟩ := List.forall_mem_cons.1 hls
    rw [lines_append hline hlast, ih hrest]
  | returned _ ih =>
    obtain ⟨⟨hline, -⟩, hrest⟩ := List.forall_mem_cons.1 hls
    rw [lines_append_return hline, ih hrest]

/-- A carriage return at the end makes no difference to a trimmed text. -/
theorem trim_append_return (cs : List Char) : trim (cs ++ ['\r']) = trim cs :=
  trim_append (a := []) nofun (List.forall_mem_singleton.2 rfl) cs

end NoteCheck.Text
