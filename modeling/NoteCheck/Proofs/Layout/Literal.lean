/-
# String literals as they are written

A literal is marks, a delimiter, units and the delimiter again; a unit is a character, or a
backslash and a character, and the delimiter does not begin where a unit begins. A literal in single
quotes is read as one token. In triple quotes a backslash does not count, and so a literal is read
as one token only where the delimiter does not stand inside it at all, not even after a backslash:
this is the main statement, `StringLiteral.Written.isSole_iff`.
-/
import NoteCheck.Proofs.Layout.Spaced

namespace NoteCheck.Code

theorem Split.after_eq_iff {lead piece rest : List Char} {s : Split} :
    s.after lead = (lead ++ piece, rest) ↔ s = (piece, rest) := by
  rw [Split.after, Prod.mk.injEq, Prod.ext_iff, List.append_cancel_left_eq]

/-! ## Sole tokens -/

theorem StandsAlone.isSole {kind : TokenKind} {text : String} (h : StandsAlone text kind) :
    IsSole kind text := by
  obtain ⟨found, lineEnd, textEnd, htokens, hfound, hline, hend⟩ :=
    exists_tokenize_intercalate (List.cons_ne_nil (kind, text) []) fun p hp => by
      rwa [List.mem_singleton.1 hp]
  obtain ⟨t, rfl, ht⟩ := List.map_eq_singleton_iff.1 hfound
  exact ⟨t, lineEnd, textEnd, htokens, ht, hline, hend⟩

theorem isSole_iff_standsAlone {kind : TokenKind} {text : String} :
    IsSole kind text ↔ StandsAlone text kind :=
  ⟨IsSole.standsAlone, StandsAlone.isSole⟩

namespace StringLiteral

theorem standsAlone_iff {cs : List Char} :
    StandsAlone (String.ofList cs) (kind cs) ↔ read? cs = some (cs, []) := by
  rw [StandsAlone, String.toList_ofList]
  constructor
  · intro h
    cases hread : read? cs with
    | none =>
      have hkind : kind cs ≠ .string ∧ kind cs ≠ .formattedString :=
        Lexeme.kind_of_next?_of_eq_none (p := fun kind => kind ≠ .string ∧ kind ≠ .formattedString)
          (by decide) (by decide) (by decide) (by decide) hread h
      rw [kind] at hkind
      split at hkind <;> simp at hkind
    | some s =>
      rw [Lexeme.next?, hread] at h
      obtain ⟨htoken, hrest⟩ := Prod.mk.inj (Option.some.inj h)
      exact congrArg some (Prod.ext (Lexeme.token.inj htoken).2 hrest)
  · intro h
    rw [Lexeme.next?, h]

/-- The marks before a literal may be in either case. -/
theorem lead_append_quote_of_mem {marks : List Char} (hleads : marks.map Char.toLower ∈ leads)
    {quote : Char} (hquote : quote = '"' ∨ quote = '\'') (cs : List Char) :
    lead (marks ++ quote :: cs) = marks := by
  have hle : ∀ marks ∈ leads, marks.length ≤ 2 := by decide
  have hplain : (leads.all fun marks => marks.all fun c => c != '"' && c != '\'') = true := rfl
  have hlength := hle _ hleads
  rw [List.length_map] at hlength
  refine lead_append_quote hlength (fun c hc => ?_) hquote cs
  have hlower := List.all_eq_true.1 (List.all_eq_true.1 hplain _ hleads) c.toLower
    (List.mem_map_of_mem hc)
  -- A quote is no letter, and so it is its own lower case.
  rw [Bool.and_eq_true, bne_iff_ne, bne_iff_ne] at hlower ⊢
  exact ⟨fun h => hlower.1 (by rw [h]; rfl), fun h => hlower.2 (by rw [h]; rfl)⟩

/-- After marks, what begins with a quote is read without them. -/
theorem read?_append_quote {marks : List Char} (hleads : marks.map Char.toLower ∈ leads)
    {quote : Char} (hquote : quote = '"' ∨ quote = '\'') (cs : List Char) :
    read? (marks ++ quote :: cs) = (body? (quote :: cs)).map (Split.after marks) := by
  rw [read?, lead_append_quote_of_mem hleads hquote, if_pos (List.contains_iff_mem.2 hleads),
    List.drop_left]

/-! ## Literals -/

/-- A unit of what stands between the delimiters: any character after a backslash, or another
character. -/
inductive Piece where
  | escaped (c : Char)
  | plain (c : Char) (h : c ≠ '\\')

namespace Piece

/-- The characters of a unit. -/
def text : Piece → List Char
  | escaped c => ['\\', c]
  | plain c _ => [c]

/-- The characters of units one after the other. -/
def texts (pieces : List Piece) : List Char := pieces.flatMap text

end Piece

/-- The delimiter of a literal: its quote, once or three times. -/
def delimiter (quote : Char) (triple : Bool) : List Char :=
  List.replicate (if triple then 3 else 1) quote

/-- A literal as it is written. Its delimiter does not begin where one of its units begins. -/
structure Written where
  marks : List Char
  quote : Char
  triple : Bool
  pieces : List Piece
  marks_mem : marks.map Char.toLower ∈ leads
  quote_eq : quote = '"' ∨ quote = '\''
  /-- A line break in single quotes stands after a backslash. -/
  inLine : triple = false → ∀ h, .plain '\n' h ∉ pieces
  isFirst : ∀ before after, pieces = before ++ after → after ≠ [] →
    ¬delimiter quote triple <+: Piece.texts after ++ delimiter quote triple

namespace Written

/-- What stands between the delimiters. -/
def body (l : Written) : List Char := Piece.texts l.pieces

/-- The literal without its marks. -/
def quoted (l : Written) : List Char :=
  delimiter l.quote l.triple ++ (l.body ++ delimiter l.quote l.triple)

/-- The whole literal. -/
def text (l : Written) : List Char := l.marks ++ l.quoted

/-- The kind of the literal: an `f` among its marks makes it a formatted string. -/
def kind (l : Written) : TokenKind :=
  if 'f' ∈ l.marks ∨ 'F' ∈ l.marks then .formattedString else .string

end Written

/-! ## Single quotes -/

theorem closeSingle?_cons {quote c : Char} {cs : List Char} (hescape : c ≠ '\\') :
    closeSingle? quote (c :: cs) =
      if c = quote then some ([c], cs)
      else if c = '\n' ∨ c = '\\' then none
      else (closeSingle? quote cs).map (Split.after [c]) :=
  closeSingle?.eq_3 quote c cs fun _ _ h _ => hescape h

/-- Before the closing quote, a literal in single quotes is read unit by unit. -/
theorem closeSingle?_texts {quote : Char} (hquote : quote ≠ '\\') {pieces : List Piece}
    (hline : ∀ h, .plain '\n' h ∉ pieces)
    (hfirst : ∀ before after, pieces = before ++ after → after ≠ [] →
      ¬[quote] <+: Piece.texts after ++ [quote]) :
    closeSingle? quote (Piece.texts pieces ++ [quote]) =
      some (Piece.texts pieces ++ [quote], []) := by
  induction pieces with
  | nil => exact (closeSingle?_cons hquote).trans (if_pos rfl)
  | cons piece pieces ih =>
    have hrest := ih (fun h hmem => hline h (List.mem_cons_of_mem _ hmem))
      fun before after h => hfirst (piece :: before) after (congrArg (piece :: ·) h)
    have hopen := hfirst [] (piece :: pieces) rfl (List.cons_ne_nil _ _)
    cases piece with
    | escaped c =>
      show closeSingle? quote ('\\' :: c :: (Piece.texts pieces ++ [quote])) = _
      rw [closeSingle?, hrest]
      rfl
    | plain c hescape =>
      have hc : c ≠ quote := fun h => hopen (List.cons_prefix_cons.2 ⟨h.symm, List.nil_prefix⟩)
      have hbreak : ¬(c = '\n' ∨ c = '\\') := by
        rintro (rfl | rfl)
        · exact hline hescape List.mem_cons_self
        · exact hescape rfl
      show closeSingle? quote (c :: (Piece.texts pieces ++ [quote])) = _
      rw [closeSingle?_cons hescape, if_neg hc, if_neg hbreak, hrest]
      rfl

/-! ## Triple quotes -/

/-- The delimiter begins nowhere in a text before it. -/
def IsFirst (delimiter body : List Char) : Prop :=
  ∀ before after, body = before ++ after → after ≠ [] → ¬delimiter <+: after ++ delimiter

theorem isFirst_cons {delimiter body : List Char} {c : Char} :
    IsFirst delimiter (c :: body) ↔
      ¬delimiter <+: c :: (body ++ delimiter) ∧ IsFirst delimiter body := by
  constructor
  · intro h
    exact ⟨h [] (c :: body) rfl (List.cons_ne_nil c body),
      fun before after hbody => h (c :: before) after (congrArg (c :: ·) hbody)⟩
  · rintro ⟨hhead, h⟩ before after hbody hne
    cases before with
    | nil =>
      obtain rfl : c :: body = after := hbody
      exact hhead
    | cons d before =>
      obtain ⟨-, hbody⟩ := List.cons.inj hbody
      exact h before after hbody hne

/-- What is read up to three quotes is read to the end of the text when the ones at the end are the
first. -/
theorem closeTriple?_eq_some_iff {quote : Char} {body : List Char} :
    closeTriple? quote (body ++ delimiter quote true) = some (body ++ delimiter quote true, []) ↔
      IsFirst (delimiter quote true) body := by
  induction body with
  | nil =>
    refine iff_of_true (if_pos ⟨rfl, rfl, rfl⟩) ?_
    intro before after h hne
    exact absurd (List.append_eq_nil_iff.1 h.symm).2 hne
  | cons a body ih =>
    obtain ⟨b, c, rest, hrest⟩ : ∃ b c rest, body ++ delimiter quote true = b :: c :: rest := by
      match body with
      | [] => exact ⟨quote, quote, [quote], rfl⟩
      | [b] => exact ⟨b, quote, [quote, quote], rfl⟩
      | b :: c :: body => exact ⟨b, c, body ++ delimiter quote true, rfl⟩
    rw [isFirst_cons, ← ih, List.cons_append, hrest, closeTriple?]
    have hstarts :
        delimiter quote true <+: a :: b :: c :: rest ↔ a = quote ∧ b = quote ∧ c = quote := by
      show [quote, quote, quote] <+: a :: b :: c :: rest ↔ _
      simp [List.cons_prefix_cons, eq_comm]
    rw [hstarts]
    by_cases hclose : a = quote ∧ b = quote ∧ c = quote
    · rw [if_pos hclose]
      refine iff_of_false (fun h => ?_) fun h => h.1 hclose
      -- The quotes at the end are left.
      have hnil : rest = [] := (Prod.mk.inj (Option.some.inj h)).2
      have hlength := congrArg List.length hrest
      rw [hnil, List.length_append] at hlength
      simp only [delimiter, if_true, List.length_replicate, List.length_cons,
        List.length_nil] at hlength
      omega
    · rw [if_neg hclose, Option.map_eq_some_iff]
      refine ⟨?_, fun h => ⟨_, h.2, rfl⟩⟩
      rintro ⟨⟨piece, left⟩, hpiece, hsplit⟩
      obtain ⟨hsplit, rfl⟩ := Prod.mk.inj hsplit
      obtain ⟨-, rfl⟩ := List.cons.inj hsplit
      exact ⟨hclose, hpiece⟩

namespace Written

variable (l : Written)

theorem quote_ne : l.quote ≠ '\\' := by
  obtain h | h := l.quote_eq <;> rw [h] <;> decide

/-- A literal in single quotes is read as a whole. -/
theorem body?_of_single (h : l.triple = false) : body? l.quoted = some (l.quoted, []) := by
  have hfirst := l.isFirst
  rw [h] at hfirst
  have hclose : closeSingle? l.quote (l.body ++ [l.quote]) = some (l.body ++ [l.quote], []) :=
    closeSingle?_texts l.quote_ne (l.inLine h) hfirst
  -- The opening quote is not followed by another one, unless that one is the closing one.
  have htriple : triple? (l.quote :: (l.body ++ [l.quote])) = none := by
    cases hbody : l.body with
    | nil => rfl
    | cons b rest =>
      have hb : b ≠ l.quote := by
        intro hb
        have hne : l.pieces ≠ [] := by
          intro hnil
          rw [body, hnil] at hbody
          cases hbody
        refine hfirst [] l.pieces rfl hne ?_
        show [l.quote] <+: l.body ++ [l.quote]
        rw [hbody, hb]
        exact List.prefix_append [l.quote] _
      obtain ⟨c, more, hmore⟩ := List.exists_cons_of_ne_nil (List.concat_ne_nil l.quote rest)
      rw [List.cons_append, hmore, triple?, if_neg fun h => hb h.2.1]
  have hquoted : l.quoted = l.quote :: (l.body ++ [l.quote]) := by
    rw [quoted, h]
    rfl
  rw [hquoted, body?, htriple, single?, if_pos l.quote_eq, hclose]
  rfl

/-- A literal in triple quotes is read as a whole when its delimiter does not stand inside it, where
a unit begins or not. -/
theorem body?_of_triple (h : l.triple = true) :
    body? l.quoted = some (l.quoted, []) ↔ IsFirst (delimiter l.quote l.triple) l.body := by
  rw [quoted, h, ← closeTriple?_eq_some_iff]
  have hopen : triple? (delimiter l.quote true ++ (l.body ++ delimiter l.quote true)) =
      (closeTriple? l.quote (l.body ++ delimiter l.quote true)).map
        (Split.after (delimiter l.quote true)) :=
    if_pos ⟨l.quote_eq, rfl, rfl⟩
  rw [body?, hopen]
  cases hclose : closeTriple? l.quote (l.body ++ delimiter l.quote true) with
  | none =>
    -- What is read then is an empty literal in single quotes.
    have hsingle : single? (delimiter l.quote true ++ (l.body ++ delimiter l.quote true)) =
        some ([l.quote, l.quote], l.quote :: (l.body ++ delimiter l.quote true)) := by
      show single? (l.quote :: l.quote :: l.quote :: (l.body ++ delimiter l.quote true)) = _
      rw [single?, if_pos l.quote_eq, closeSingle?_cons l.quote_ne, if_pos rfl]
      rfl
    rw [hsingle]
    refine iff_of_false (fun h => ?_) (Option.some_ne_none _).symm
    cases (Prod.mk.inj (Option.some.inj h)).2
  | some s =>
    show some (s.after _) = _ ↔ _
    rw [Option.some.injEq, Option.some.injEq, Split.after_eq_iff]

theorem exists_quoted_eq : ∃ more, l.quoted = l.quote :: more := by
  rw [quoted]
  cases l.triple
  all_goals exact ⟨_, rfl⟩

theorem kind_text : StringLiteral.kind l.text = l.kind := by
  obtain ⟨more, hmore⟩ := l.exists_quoted_eq
  have hmarks : (l.marks.any fun c => c == 'f' || c == 'F') = true ↔
      'f' ∈ l.marks ∨ 'F' ∈ l.marks := by
    simp [and_or_left, exists_or]
  rw [StringLiteral.kind, text, hmore, lead_append_quote_of_mem l.marks_mem l.quote_eq, kind]
  simp only [hmarks]

/-- The marks are no matter of whether a literal is read as a whole. -/
theorem standsAlone_iff : StandsAlone (String.ofList l.text) l.kind ↔
    body? l.quoted = some (l.quoted, []) := by
  have hread : read? l.text = (body? l.quoted).map (Split.after l.marks) := by
    obtain ⟨more, hmore⟩ := l.exists_quoted_eq
    rw [text, hmore, read?_append_quote l.marks_mem l.quote_eq]
  rw [← l.kind_text, StringLiteral.standsAlone_iff, hread, Option.map_eq_some_iff]
  constructor
  · rintro ⟨s, hs, hsplit⟩
    rw [hs, Split.after_eq_iff.1 hsplit]
  · exact fun h => ⟨_, h, rfl⟩

/-- A literal is read as one token if it is in single quotes, or if its delimiter does not stand
inside it, be it after a backslash. -/
theorem isSole_iff : IsSole l.kind (String.ofList l.text) ↔
    (l.triple = true → IsFirst (delimiter l.quote l.triple) l.body) := by
  rw [isSole_iff_standsAlone, l.standsAlone_iff]
  cases h : l.triple with
  | false => exact iff_of_true (l.body?_of_single h) nofun
  | true =>
    rw [l.body?_of_triple h, h]
    exact ⟨fun hfirst _ => hfirst, fun hfirst => hfirst rfl⟩

end Written

/-- A quote after a backslash, in triple quotes: together with the first two quotes that should
close the literal, it makes three. -/
def escapedQuote : Written where
  marks := []
  quote := '"'
  triple := true
  pieces := [.escaped '"']
  marks_mem := by decide
  quote_eq := .inl rfl
  inLine := nofun
  isFirst := by
    intro before after hpieces hne
    obtain ⟨-, rfl⟩ | ⟨-, rfl⟩ := List.append_eq_singleton_iff.1 hpieces.symm
    · decide
    · exact absurd rfl hne

theorem not_isSole_escapedQuote : String.ofList escapedQuote.text = "\"\"\"\\\"\"\"\"" ∧
    ¬IsSole escapedQuote.kind (String.ofList escapedQuote.text) := by
  refine ⟨rfl, ?_⟩
  rintro ⟨t, lineEnd, textEnd, htokens, -⟩
  have herror : (tokenize (String.ofList escapedQuote.text)).toOption = none := by decide +kernel
  rw [htokens] at herror
  cases herror

end StringLiteral

end NoteCheck.Code
