/-
# The end of the text

The tokens of a block end with the mark for the end of the text, and no other token is that mark.
-/
import NoteCheck.Proofs.Layout.Steps

namespace NoteCheck.Code

/-- Tokens that end with the end of the text, and only there. -/
def EndsOnce (tokens : List Token) : Prop :=
  ∃ before last, tokens = before ++ [last] ∧ last.kind = .endOfFile ∧
    ∀ t ∈ before, t.kind ≠ .endOfFile

theorem EndsOnce.append {found tokens : List Token} (h : EndsOnce tokens)
    (hfound : ∀ t ∈ found, t.kind ≠ .endOfFile) : EndsOnce (found ++ tokens) := by
  obtain ⟨before, last, rfl, hlast, hbefore⟩ := h
  refine ⟨found ++ before, last, (List.append_assoc ..).symm, hlast, ?_⟩
  intro t ht
  rcases List.mem_append.1 ht with ht | ht
  · exact hfound t ht
  · exact hbefore t ht

/-- The kinds of the tokens that stand for pieces of the text and are no string literals. -/
theorem Lexeme.kind_of_next?_of_eq_none {p : TokenKind → Prop} (hnumber : p .number)
    (hname : p .identifier) (hwords : ∀ m ∈ TokenKind.reservedWords, p m.2)
    (hmarks : ∀ m ∈ TokenKind.marks, p m.2) {cs text rest : List Char} {kind : TokenKind}
    (hstring : StringLiteral.read? cs = none) (h : next? cs = some (token kind text, rest)) :
    p kind := by
  unfold next? at h
  rw [hstring] at h
  dsimp only at h
  -- words, numbers, line breaks, gaps and marks, in the order in which they are tried
  split at h
  · cases h
    rw [TokenKind.ofWord]
    cases hlookup : TokenKind.reservedWords.lookup (String.ofList text) with
    | none => exact hname
    | some kind =>
      obtain ⟨before, after, hmem, -⟩ := List.lookup_eq_some_iff.1 hlookup
      exact hwords (String.ofList text, kind) (by rw [hmem]; simp)
  split at h
  · cases h
    exact hnumber
  split at h
  · cases h
  split at h
  · cases h
  · obtain ⟨⟨kind', s⟩, hm, h⟩ := Option.map_eq_some_iff.1 h
    cases h
    obtain ⟨mark, hmem, hmark⟩ := List.exists_of_findSome?_eq_some hm
    obtain ⟨_, -, h⟩ := Option.map_eq_some_iff.1 hmark
    cases h
    exact hmarks mark hmem

/-- The kinds of the tokens that stand for pieces of the text. -/
theorem Lexeme.kind_of_next? {p : TokenKind → Prop} (hstring : p .string)
    (hformatted : p .formattedString) (hnumber : p .number) (hname : p .identifier)
    (hwords : ∀ m ∈ TokenKind.reservedWords, p m.2) (hmarks : ∀ m ∈ TokenKind.marks, p m.2)
    {cs text rest : List Char} {kind : TokenKind}
    (h : next? cs = some (token kind text, rest)) : p kind := by
  cases hread : StringLiteral.read? cs with
  | none => exact kind_of_next?_of_eq_none hnumber hname hwords hmarks hread h
  | some s =>
    rw [next?, hread] at h
    cases h
    unfold StringLiteral.kind
    split
    · exact hformatted
    · exact hstring

/-- No piece of the text is read as the end of the text. -/
theorem Lexeme.kind_ne_endOfFile {cs text rest : List Char} {kind : TokenKind}
    (h : next? cs = some (token kind text, rest)) : kind ≠ .endOfFile :=
  kind_of_next? (p := (· ≠ .endOfFile)) (by decide) (by decide) (by decide) (by decide)
    (by decide) (by decide) h

namespace Reader

theorem ne_endOfFile_of_lexeme {r next : Reader} {taken : List Token}
    (h : r.lexeme = .ok (taken, next)) : ∀ t ∈ taken, t.kind ≠ .endOfFile := by
  obtain ⟨l, rest, hnext, htake⟩ | ⟨-, rfl, -⟩ := lexeme_eq_ok.1 h
  · cases take_eq_iff.1 htake with
    | token => exact List.forall_mem_singleton.2 (Lexeme.kind_ne_endOfFile hnext)
    | lineEnd => exact List.forall_mem_singleton.2 nofun
    | lineBreak | gap => exact List.forall_mem_nil _
  · exact List.forall_mem_nil _

/-- A step never comes upon the end of the text. -/
theorem ne_endOfFile_of_step {r next : Reader} {found : List Token}
    (h : r.step = .ok (found, next)) : ∀ t ∈ found, t.kind ≠ .endOfFile := by
  obtain ⟨layout, entered, taken, hline, hlexeme, rfl⟩ := step_eq_ok_iff.1 h
  refine List.forall_mem_append.2 ⟨fun t ht => ?_, ne_endOfFile_of_lexeme hlexeme⟩
  obtain rfl | rfl := eq_marker_of_enterLine hline t ht <;> nofun

theorem endsOnce_finish (r : Reader) : EndsOnce r.finish := by
  refine ⟨_, _, rfl, rfl, ?_⟩
  intro t ht
  rcases List.mem_append.1 ht with ht | ht
  · split at ht
    · cases ht
    · obtain rfl := List.mem_singleton.1 ht
      nofun
  · obtain ⟨_, -, rfl⟩ := List.mem_map.1 ht
    nofun

/-- What is read of a text ends with the end of the text, and only there. -/
theorem endsOnce_of_tokens {r : Reader} {tokens : List Token} (h : r.tokens = .ok tokens) :
    EndsOnce tokens := by
  induction r using Reader.tokens.induct generalizing tokens with
  | case1 r hnil =>
    rw [tokens_of_rest_eq_nil hnil] at h
    cases h
    exact endsOnce_finish r
  | case2 r hne e hstep => cases (tokens_of_step_eq_error hne hstep).symm.trans h
  | case3 r hne found next hstep ih =>
    rw [tokens_eq_of_step hne hstep] at h
    obtain ⟨others, hnext, rfl⟩ := Results.map_eq_ok.1 h
    exact (ih hnext).append (ne_endOfFile_of_step hstep)

end Reader

/-- The tokens of a block end with the end of the text, and only there. -/
theorem endsOnce_of_tokenize {code : String} {tokens : List Token}
    (h : tokenize code = .ok tokens) : EndsOnce tokens :=
  Reader.endsOnce_of_tokens h

end NoteCheck.Code
