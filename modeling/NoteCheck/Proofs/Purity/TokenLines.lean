/-
# Violations begin where tokens do

What is found in a block stands on lines on which tokens begin. Reading depends on the spans of the
tokens only by passing them on, so no line can be found that no token has: if all lines without a
property are moved, and no token is on such a line, the same is found on the same lines. An error in
the order of the tokens stands where one of them begins.
-/
import NoteCheck.Proofs.Grammar.LocalStmt
import NoteCheck.Proofs.Purity.Joined

namespace NoteCheck.Code

open Parse TokenStream

/-- What holds of the lines of all tokens in the lines of a block holds of the lines of all that is
found in it. -/
theorem Purity.forall_line {code : String} {lines : List Token} {stop : Token} {body : List Stmt}
    {P : Nat → Prop} (htokens : tokenize code = .ok (lines ++ [stop]))
    (hbody : parse code = .ok body) (hP : ∀ t ∈ lines, t.kind.isLayout = false → P t.span.line) :
    ∀ found ∈ body.flatMap topStatement, P found.1 := by
  classical
  -- lines without the property are moved by one
  let move : Nat → Nat := fun line => if P line then line else line + 1
  let moved : Span → Span := fun s => Span.ofLine (move s.line)
  have hlike : List.Forall₂ (Token.Like Span.onLine moved) lines lines := by
    refine List.forall₂_same.2 fun t ht => ⟨rfl, fun hlayout => ?_⟩
    exact congrArg Span.ofLine (if_pos (hP t ht hlayout)).symm
  obtain ⟨hlined, hstop⟩ := lined_of_tokenize htokens
  obtain ⟨tokens, htokens', hparse⟩ := exists_tokens_of_parse hbody
  obtain rfl := Except.ok.inj (htokens'.symm.trans htokens)
  obtain ⟨first, others, hfirst⟩ := List.exists_cons_of_ne_nil
    (List.append_ne_nil_of_right_ne_nil lines (List.cons_ne_nil stop []))
  rw [hfirst] at hparse
  obtain ⟨u, hblock⟩ := exists_block_of_parseTokens hparse
  obtain ⟨body', w, hblock', hsame⟩ := exists_block_of_lined (fun _ _ => rfl) (fun _ _ => rfl)
    hlined hstop hstop hlike (s := ofTokens first others) (t := ofTokens first others) hfirst.symm
    hfirst.symm hblock
  obtain ⟨rfl, -⟩ := Prod.mk.inj (Except.ok.inj (hblock.symm.trans hblock'))
  have hfound := congrArg (List.flatMap topStatement) hsame
  rw [flatMap_topStatement_onLine, flatMap_topStatement_map (f := moved) (g := move) fun _ => rfl]
    at hfound
  intro found hmem
  have hstays : move found.1 = found.1 := by
    have hmap := (List.map_id _).trans hfound
    exact congrArg Prod.fst (List.map_inj_left.1 hmap found hmem).symm
  by_contra hnot
  have hmoves : move found.1 = found.1 + 1 := if_neg hnot
  omega

/-- An error in the order of the tokens stands where a token begins. -/
theorem exists_token_of_parseTokens {tokens : List Token} {e : SyntaxError}
    (hends : ∀ t ∈ tokens.getLast?, t.kind = .endOfFile) (h : parseTokens tokens = .error e) :
    ∃ t ∈ tokens, e.position = t.span.start := by
  cases tokens with
  | nil => cases h
  | cons first ahead =>
    have hclosed : (ofTokens first ahead).Closed := hends
    have hblock := (block_eq_error_iff hclosed).1 h
    obtain hhalt | ⟨t, honward, hposition, -⟩ := local_block hclosed trivial
    · cases hblock.symm.trans hhalt
    rw [hblock] at hposition
    cases hposition with
    | fault hposition => exact ⟨t.current, honward.subset List.mem_cons_self, hposition⟩

end NoteCheck.Code
