/-
# A text put in after a lexeme

A lexeme is read alike where a text without quotes is put in after it, or further on, if that text
begins with a delimiter. A literal in triple quotes that is nowhere closed is not closed by it,
either. The main statement is `Lexeme.next?_insert`.
-/
import NoteCheck.Proofs.Layout.Coverage
import NoteCheck.Proofs.Layout.Cut

namespace NoteCheck.Code

/-- A text in which no quote stands. -/
def Quoteless (cs : List Char) : Prop := ∀ c ∈ cs, (c != '"' && c != '\'') = true

theorem Quoteless.head_ne {c : Char} {cs : List Char} (h : Quoteless (c :: cs)) :
    ¬(c = '"' ∨ c = '\'') := by
  have hc := h c List.mem_cons_self
  rw [Bool.and_eq_true, bne_iff_ne, bne_iff_ne] at hc
  exact not_or.2 hc

namespace StringLiteral

variable {quote : Char} {cs ins more rest text : List Char}

/-! ## Triple quotes -/

theorem closeTriple?_cons_eq_none_iff (c : Char) (cs : List Char) :
    closeTriple? quote (c :: cs) = none ↔
      ¬[quote, quote, quote] <+: c :: cs ∧ closeTriple? quote cs = none := by
  match cs with
  | [] => simp [closeTriple?]
  | [d] => simp [closeTriple?]
  | d :: e :: cs =>
    rw [closeTriple?]
    by_cases hclose : c = quote ∧ d = quote ∧ e = quote
    · rw [if_pos hclose]
      obtain ⟨rfl, rfl, rfl⟩ := hclose
      simp
    · rw [if_neg hclose, Option.map_eq_none_iff]
      refine ⟨fun h => ⟨fun hprefix => hclose ?_, h⟩, And.right⟩
      obtain ⟨hc, hprefix⟩ := List.cons_prefix_cons.1 hprefix
      obtain ⟨hd, hprefix⟩ := List.cons_prefix_cons.1 hprefix
      obtain ⟨he, -⟩ := List.cons_prefix_cons.1 hprefix
      exact ⟨hc.symm, hd.symm, he.symm⟩

/-- Where a text without quotes is put in, no three quotes come to stand at the beginning. -/
theorem quotes_prefix_of_insert (hins : Quoteless ins) (hne : ins ≠ [])
    (hquote : quote = '"' ∨ quote = '\'') (h : [quote, quote, quote] <+: cs ++ (ins ++ more)) :
    [quote, quote, quote] <+: cs := by
  rcases List.prefix_or_prefix_of_prefix h (List.prefix_append cs (ins ++ more)) with h' | h'
  · exact h'
  obtain ⟨after, hafter⟩ := h'
  -- the quotes that do not stand before the text stand in it
  cases after with
  | nil =>
    rw [List.append_nil] at hafter
    exact hafter ▸ List.prefix_rfl
  | cons d after =>
    obtain ⟨c, ins, rfl⟩ := List.exists_cons_of_ne_nil hne
    have hd : d = quote := List.eq_of_mem_replicate (n := 3) (show d ∈ [quote, quote, quote] by
      rw [← hafter]
      simp)
    rw [← hafter, List.prefix_append_right_inj, List.cons_append, List.cons_prefix_cons, hd] at h
    rw [h.1] at hquote
    exact absurd hquote hins.head_ne

/-- A text without quotes closes no literal in triple quotes. -/
theorem closeTriple?_insert (hins : Quoteless ins) (hquote : quote = '"' ∨ quote = '\'')
    (h : closeTriple? quote (cs ++ more) = none) :
    closeTriple? quote (cs ++ (ins ++ more)) = none := by
  by_cases hne : ins = []
  · rwa [hne, List.nil_append]
  induction cs with
  | nil =>
    clear hne
    induction ins with
    | nil => exact h
    | cons c ins ih =>
      refine (closeTriple?_cons_eq_none_iff c (ins ++ more)).2
        ⟨fun hprefix => ?_, ih fun d hd => hins d (List.mem_cons_of_mem _ hd)⟩
      obtain ⟨rfl, -⟩ := List.cons_prefix_cons.1 hprefix
      exact hins.head_ne hquote
  | cons c cs ih =>
    obtain ⟨hopen, hrest⟩ := (closeTriple?_cons_eq_none_iff c (cs ++ more)).1 h
    refine (closeTriple?_cons_eq_none_iff c (cs ++ (ins ++ more))).2 ⟨fun hprefix => ?_, ih hrest⟩
    have hbefore : [quote, quote, quote] <+: c :: cs :=
      quotes_prefix_of_insert hins hne hquote hprefix
    exact hopen (hbefore.trans (List.prefix_append (c :: cs) more))

theorem triple?_insert (hins : Quoteless ins) (hne : cs ≠ []) (h : triple? (cs ++ more) = none) :
    triple? (cs ++ (ins ++ more)) = none := by
  by_cases hempty : ins = []
  · rwa [hempty, List.nil_append]
  by_contra hsome
  obtain ⟨s, hs⟩ := Option.ne_none_iff_exists'.1 hsome
  unfold triple? at hs
  split at hs
  · rename_i a b c others hcs
    split at hs
    · rename_i hopen
      obtain ⟨hquote, rfl, rfl⟩ := hopen
      -- the opening quotes stand before the text that is put in
      have hprefix : [c, c, c] <+: cs ++ (ins ++ more) := ⟨others, hcs.symm⟩
      obtain ⟨left, rfl⟩ := quotes_prefix_of_insert hins hempty hquote hprefix
      rw [List.append_assoc] at h hcs
      rw [show [c, c, c] ++ (left ++ more) = c :: c :: c :: (left ++ more) from rfl, triple?,
        if_pos ⟨hquote, rfl, rfl⟩, Option.map_eq_none_iff] at h
      have hopen := closeTriple?_insert hins hquote h
      obtain rfl : left ++ (ins ++ more) = others := (List.append_right_inj [c, c, c]).1 hcs
      rw [hopen] at hs
      cases hs
    · cases hs
  · cases hs

/-! ## Whole literals -/

/-- A literal that ends before a text without quotes is the same. -/
theorem body?_insert (hins : Quoteless ins) (h : body? (cs ++ more) = some (text, rest ++ more)) :
    body? (cs ++ (ins ++ more)) = some (text, rest ++ (ins ++ more)) := by
  obtain rfl : text ++ rest = cs := Split.Cuts.of_append (cuts_of_body? h)
  have hne : text ++ rest ≠ [] := List.append_ne_nil_of_left_ne_nil (cuts_of_body? h).1 rest
  rw [body?] at h ⊢
  cases htriple : triple? (text ++ rest ++ more) with
  | some s =>
    rw [htriple] at h
    obtain rfl := Option.some.inj h
    rw [List.append_assoc, triple?_of_piece htriple]
    rfl
  | none =>
    rw [htriple] at h
    have hsingle : single? (text ++ (rest ++ (ins ++ more))) = some (text, rest ++ (ins ++ more)) :=
      single?_of_piece h _
    rw [triple?_insert hins hne htriple, List.append_assoc, hsingle]
    rfl

/-- A string literal that ends before a text without quotes is the same. -/
theorem read?_insert (hins : Quoteless ins) (h : read? (cs ++ more) = some (text, rest ++ more)) :
    read? (cs ++ (ins ++ more)) = some (text, rest ++ (ins ++ more)) := by
  have hcut := Split.Cuts.of_append (cuts_of_read? h)
  obtain ⟨marks, literal, piece, hcs, rfl, hleads, hplain, hbody⟩ := read?_eq_some_iff.1 h
  have hliteral : literal = piece ++ rest ++ more := by
    have hpiece : piece ++ (rest ++ more) = literal := (cuts_of_body? hbody).2
    rw [← hpiece, List.append_assoc]
  rw [hliteral] at hbody
  refine read?_eq_some_iff.2 ⟨marks, piece ++ rest ++ (ins ++ more), piece, ?_, rfl, hleads,
    hplain, body?_insert hins hbody⟩
  rw [← hcut]
  simp only [List.append_assoc]

/-- The marks before a literal are letters. -/
theorem isStart_of_leads {marks : List Char}
    (hleads : leads.contains (marks.map Char.toLower) = true) :
    ∀ c ∈ marks, Word.isStart c = true := by
  have hletters : ∀ lead ∈ leads, lead.all Word.isStart = true := by decide
  intro c hc
  by_contra hstart
  rw [Bool.not_eq_true] at hstart
  have hlead := hletters _ (List.contains_iff_mem.1 hleads)
  have hlower := List.all_eq_true.1 hlead _ (List.mem_map_of_mem hc)
  rw [Word.toLower_eq_of_isStart_eq_false hstart, hstart] at hlower
  cases hlower

/-- A text that begins with a quote is a string literal or nothing. -/
theorem read?_quote (hquote : quote = '"' ∨ quote = '\'') (cs : List Char) :
    read? (quote :: cs) = body? (quote :: cs) := by
  have hlead : lead ([] ++ quote :: cs) = [] := lead_append_quote (by decide) (by simp) hquote cs
  rw [List.nil_append] at hlead
  have hafter : Split.after [] = id := rfl
  rw [read?, hlead, if_pos (by decide), hafter, Option.map_id]
  rfl

end StringLiteral

/-- What begins with a quote and is a lexeme is a string literal. -/
theorem Lexeme.body?_ne_none_of_next? {quote : Char} {cs : List Char}
    (hquote : quote = '"' ∨ quote = '\'') (h : next? (quote :: cs) ≠ none) :
    StringLiteral.body? (quote :: cs) ≠ none := by
  intro hbody
  refine h ?_
  have hmark : TokenKind.mark? (quote :: cs) = none := by
    have hfirst : ∀ m ∈ TokenKind.marks,
        m.1.toList.head? ≠ some '"' ∧ m.1.toList.head? ≠ some '\'' := by decide
    rw [TokenKind.mark?, List.findSome?_eq_none_iff]
    intro m hm
    obtain ⟨c, others, hc⟩ := List.exists_cons_of_ne_nil (TokenKind.ne_nil_of_mem_marks hm)
    have hne : c ≠ quote := by
      rintro rfl
      have hhead : m.1.toList.head? = some c := by rw [hc, List.head?_cons]
      rcases hquote with rfl | rfl
      · exact (hfirst m hm).1 hhead
      · exact (hfirst m hm).2 hhead
    simp [hc, List.isPrefixOf?, hne]
  rw [next?, StringLiteral.read?_quote hquote, hbody, hmark]
  rcases hquote with rfl | rfl <;> rfl

namespace StringLiteral

variable {cs ins more rest : List Char} {l : Lexeme}

/-- The marks of a literal and its quote stand before a text without quotes that is put in after a
part of the literal. -/
theorem exists_before_insert {marks others : List Char} {quote : Char} (hins : Quoteless ins)
    (hmore : Delimited (ins ++ more)) (hempty : ins ≠ []) (hquote : quote = '"' ∨ quote = '\'')
    (hletters : ∀ c ∈ marks, Word.isStart c = true)
    (hcs : cs ++ (ins ++ more) = marks ++ quote :: others) :
    ∃ left, cs = marks ++ quote :: left := by
  obtain ⟨c, ins, rfl⟩ := List.exists_cons_of_ne_nil hempty
  rcases List.append_eq_append_iff.1 hcs with ⟨between, rfl, hother⟩ | ⟨between, rfl, hother⟩
  · cases between with
    | nil =>
      obtain ⟨rfl, -⟩ := List.cons.inj hother
      exact absurd hquote hins.head_ne
    | cons d between =>
      obtain ⟨rfl, -⟩ := List.cons.inj hother
      have hplain : ∀ d ∈ delimiters, Word.isStart d = false :=
        List.all_iff_forall_prop.1 (by decide)
      have hletter := hletters c (by simp)
      rw [hplain c (hmore.mem_delimiters rfl)] at hletter
      cases hletter
  · cases between with
    | nil =>
      obtain ⟨rfl, -⟩ := List.cons.inj hother
      exact absurd hquote hins.head_ne
    | cons d between =>
      obtain ⟨rfl, -⟩ := List.cons.inj hother
      exact ⟨between, rfl⟩

/-- Letters before a quote are read as a word. -/
theorem word_read?_marks {d : Char} {marks : List Char} {quote : Char}
    (hquote : quote = '"' ∨ quote = '\'') (hletters : ∀ c ∈ d :: marks, Word.isStart c = true)
    (cs : List Char) :
    Word.read? (d :: marks ++ quote :: cs) = some (d :: marks, quote :: cs) := by
  have hparts : ∀ c ∈ marks, Word.isPart c = true := fun c hc =>
    Word.isPart_of_isStart (hletters c (List.mem_cons_of_mem _ hc))
  have hquoted : Word.isPart quote = false := by rcases hquote with rfl | rfl <;> rfl
  have hrun : Split.run Word.isPart (marks ++ quote :: cs) = (marks, quote :: cs) := by
    rw [Split.run, List.takeWhile_append_of_pos hparts, List.dropWhile_append_of_pos hparts,
      List.takeWhile_cons_of_neg (by simp [hquoted]),
      List.dropWhile_cons_of_neg (by simp [hquoted]),
      List.append_nil]
  rw [List.cons_append, Word.read?, if_pos (hletters d List.mem_cons_self)]
  exact congrArg (fun s => some (Split.after [d] s)) hrun

/-- Where a lexeme is no string literal, none begins with it when a text without quotes is put in. A
word before a quote may be the marks of a literal, and so what follows it has to be read, too. -/
theorem read?_insert_eq_none (hins : Quoteless ins) (hmore : Delimited (ins ++ more))
    (hempty : ins ≠ []) (hread : read? (cs ++ more) = none)
    (h : Lexeme.next? (cs ++ more) = some (l, rest ++ more))
    (hlater : rest ≠ [] → (∃ kind text, l = .token kind text) →
      Lexeme.next? (rest ++ more) ≠ none) :
    read? (cs ++ (ins ++ more)) = none := by
  by_contra hsome
  obtain ⟨⟨text, after⟩, hliteral⟩ := Option.ne_none_iff_exists'.1 hsome
  obtain ⟨marks, literal, piece, hcs, rfl, hleads, hplain, hbody⟩ := read?_eq_some_iff.1 hliteral
  obtain ⟨quote, others, rfl, hquote⟩ := exists_quote_of_body? hbody
  have hletters := isStart_of_leads hleads
  obtain ⟨left, rfl⟩ := exists_before_insert hins hmore hempty hquote hletters hcs
  have hnone : body? (quote :: left ++ more) = none := by
    by_contra hfound
    obtain ⟨⟨piece', after'⟩, hbody'⟩ := Option.ne_none_iff_exists'.1 hfound
    rw [List.append_assoc, read?_eq_some_iff.2 ⟨marks, _, piece', rfl, rfl, hleads, hplain, hbody'⟩]
      at hread
    cases hread
  cases marks with
  | nil =>
    have hnext : Lexeme.next? (quote :: (left ++ more)) ≠ none := by
      rw [show quote :: (left ++ more) = [] ++ quote :: left ++ more from rfl, h]
      exact Option.some_ne_none _
    exact Lexeme.body?_ne_none_of_next? hquote hnext hnone
  | cons d marks =>
    -- the marks are a word, and the literal is read after it
    have hword : Word.read? (d :: marks ++ quote :: left ++ more) =
        some (d :: marks, quote :: (left ++ more)) := by
      rw [List.append_assoc]
      exact word_read?_marks hquote hletters (left ++ more)
    rw [Lexeme.next?, hread, hword] at h
    obtain ⟨rfl, hrest⟩ := Prod.mk.inj (Option.some.inj h)
    obtain rfl : quote :: left = rest := List.append_cancel_right hrest
    exact Lexeme.body?_ne_none_of_next? hquote (hlater (List.cons_ne_nil _ _) ⟨_, _, rfl⟩) hnone

end StringLiteral

/-! ## Lexemes -/

namespace Lexeme

variable {cs ins more rest : List Char} {l : Lexeme}

/-- A text of blanks alone is a gap as a whole. -/
theorem next?_of_forall_isBlank (hne : cs ≠ []) (h : ∀ c ∈ cs, Gap.isBlank c = true) :
    next? cs = some (.gap cs, []) := by
  obtain ⟨c, cs, rfl⟩ := List.exists_cons_of_ne_nil hne
  have hbreak : Gap.lineBreak? (c :: cs) = none := by
    rw [Option.eq_none_iff_forall_ne_some]
    rintro ⟨text, rest⟩ hsome
    have hcut := (Gap.cuts_of_lineBreak? hsome).2
    have hmem : '\n' ∈ c :: cs := by
      rw [← hcut]
      rcases Gap.of_lineBreak? hsome with rfl | rfl <;> simp
    cases h _ hmem
  have hrun : Split.run Gap.isBlank cs = (cs, []) := by
    have hrest : ∀ d ∈ cs, Gap.isBlank d = true := fun d hd => h d (List.mem_cons_of_mem c hd)
    rw [Split.run, List.takeWhile_eq_self_iff.2 hrest, List.dropWhile_eq_nil_iff.2 hrest]
  rw [next?_blanks (h c List.mem_cons_self) hbreak, hrun]

/-- A lexeme is read alike where a text without quotes is put in after it or further on, if that
text begins with a delimiter and the lexeme is no gap that may go on in it. What follows a token is
read, too. -/
theorem next?_insert (hins : Quoteless ins) (hdelimited : ins ≠ [] → Delimited (ins ++ more))
    (h : next? (cs ++ more) = some (l, rest ++ more))
    (hgap : rest = [] → ∀ text, l ≠ .gap text)
    (hlater : rest ≠ [] → (∃ kind text, l = .token kind text) → next? (rest ++ more) ≠ none) :
    next? (cs ++ (ins ++ more)) = some (l, rest ++ (ins ++ more)) := by
  by_cases hempty : ins = []
  · rwa [hempty, List.nil_append]
  have hmore := hdelimited hempty
  have hcut := next?_of_append h
  have hne : cs ≠ [] := by
    rintro rfl
    cases hcut
  -- one fact for each kind of lexeme: what is read first does not reach into what is put in
  have hstring : StringLiteral.read? (cs ++ (ins ++ more)) =
      (StringLiteral.read? cs).map (Split.followed (ins ++ more)) := by
    cases hread : StringLiteral.read? (cs ++ more) with
    | none =>
      rw [StringLiteral.read?_insert_eq_none hins hmore hempty hread h hlater,
        StringLiteral.read?_eq_none_of_append hread]
      rfl
    | some s =>
      rw [next?, hread] at h
      obtain ⟨-, hrest⟩ := Prod.mk.inj (Option.some.inj h)
      have hread : StringLiteral.read? (cs ++ more) = some (s.1, rest ++ more) := by
        rw [hread, ← hrest]
      rw [StringLiteral.read?_insert hins hread, StringLiteral.read?_of_append hread]
      rfl
  -- gaps that could grow are those that `hgap` excludes
  have hreturn : cs ≠ ['\r'] := by
    rintro rfl
    obtain ⟨rfl, rfl⟩ := Prod.mk.inj (Option.some.inj hcut)
    exact hgap rfl _ rfl
  have hjoint : cs ≠ ['\\'] ∧ cs ≠ ['\\', '\r'] := by
    constructor
    · rintro rfl
      cases hcut
    · rintro rfl
      cases hcut
  have hblanks : Split.run Gap.isBlank (cs ++ (ins ++ more)) =
      (Split.run Gap.isBlank cs).followed (ins ++ more) := by
    refine Split.run_append_of_ne_nil fun hnil => ?_
    have hall : ∀ c ∈ cs, Gap.isBlank c = true := List.dropWhile_eq_nil_iff.1 hnil
    rw [next?_of_forall_isBlank hne hall] at hcut
    obtain ⟨rfl, rfl⟩ := Prod.mk.inj (Option.some.inj hcut)
    exact hgap rfl _ rfl
  have hcomment : ∀ text, cs = '#' :: text → Split.run (· != '\n') (text ++ (ins ++ more)) =
      (Split.run (· != '\n') text).followed (ins ++ more) := by
    rintro text rfl
    refine Split.run_append_of_ne_nil fun hnil => ?_
    rw [next?_comment] at hcut
    obtain ⟨rfl, rfl⟩ := Prod.mk.inj (Option.some.inj hcut)
    exact hgap hnil _ rfl
  rw [next?_append hne hmore hstring (Gap.lineBreak?_append hne hreturn)
    (Gap.read?_append hne hjoint hblanks hcomment), hcut]
  rfl

end Lexeme

end NoteCheck.Code
