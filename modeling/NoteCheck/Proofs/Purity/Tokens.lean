/-
# The tokens of a pure block

A pure block holds no word or mark of a forbidden statement, not even where the reader passes over
text without looking at it, and `for` stands only inside brackets.
-/
import NoteCheck.Proofs.Grammar.Onward
import NoteCheck.Proofs.Layout.EndOfText
import NoteCheck.Proofs.Purity.Passage

namespace NoteCheck.Code

/-! ## Pure statements are harmless -/

theorem PlainStmt.harmless {st : Stmt} (h : PlainStmt st) : st.Harmless := by
  cases h with
  | assign => exact .assign
  | ret => exact .ret

theorem OneReturn.harmless {body : List Stmt} (h : OneReturn body) : ∀ st ∈ body, st.Harmless := by
  obtain ⟨-⟩ := h
  intro st hst
  obtain rfl := List.mem_singleton.1 hst
  exact .ret

theorem Guard.harmless {st : Stmt} (h : Guard st) : st.Harmless := by
  induction h with
  | alone hbody => exact .branch hbody.harmless nofun
  | elseReturn hbody horelse => exact .branch hbody.harmless horelse.harmless
  | elseGuard hbody _ ih => exact .branch hbody.harmless (List.forall_mem_singleton.2 ih)

theorem FunctionStmt.harmless {st : Stmt} (h : FunctionStmt st) : st.Harmless := by
  cases h with
  | plain h => exact h.harmless
  | guard h => exact h.harmless
  | helper hbody => exact .function fun st hst => (hbody st hst).harmless

theorem TopStmt.harmless {st : Stmt} (h : TopStmt st) : st.Harmless := by
  obtain ⟨hbody⟩ := h
  exact .function fun st hst => (hbody st hst).harmless

/-! ## Tokens that are passed -/

/-- The number of brackets that are open after tokens. -/
def openBrackets (tokens : List Token) : Nat :=
  tokens.foldl (fun depth t => t.kind.depthAfter depth) 0

namespace TokenStream

/-- Before the end of the text there is always a token to go on to. -/
theorem tokens_tail {s : TokenStream} (heof : s.kind ≠ .endOfFile) (hs : EndsOnce s.tokens) :
    s.tokens = s.current :: s.tail.tokens ∧ EndsOnce s.tail.tokens := by
  obtain ⟨before, last, hsplit, hlast, hbefore⟩ := hs
  cases before with
  | nil =>
    obtain ⟨hcurrent, -⟩ := List.cons.inj hsplit
    rw [← hcurrent] at hlast
    exact absurd hlast heof
  | cons first before =>
    obtain ⟨rfl, hahead⟩ := List.cons.inj hsplit
    have hends : EndsOnce s.ahead :=
      ⟨before, last, hahead, hlast, fun t ht => hbefore t (List.mem_cons_of_mem _ ht)⟩
    cases hs' : s.ahead with
    | nil =>
      rw [hs'] at hahead
      exact absurd hahead.symm (by simp)
    | cons next ahead =>
      have htail : s.tail.tokens = s.ahead := by
        rw [tail_eq_of_ahead heof hs', hs']
        rfl
      rw [htail]
      exact ⟨rfl, hends⟩

/-- Nothing stands after the end of the text. -/
theorem tokens_of_endOfFile {s : TokenStream} (heof : s.kind = .endOfFile)
    (hs : EndsOnce s.tokens) : s.tokens = [s.current] := by
  obtain ⟨before, last, hsplit, -, hbefore⟩ := hs
  cases before with
  | nil =>
    obtain ⟨-, hahead⟩ := List.cons.inj hsplit
    rw [tokens, hahead]
  | cons first before =>
    obtain ⟨rfl, -⟩ := List.cons.inj hsplit
    exact absurd heof (hbefore _ List.mem_cons_self)

end TokenStream

/-- The tokens that are passed, after others that leave brackets open. -/
theorem Passes.exists_tokens {d d' : Nat} {s t : TokenStream} (h : Passes d s d' t)
    (hs : EndsOnce s.tokens) :
    EndsOnce t.tokens ∧ ∃ taken, s.tokens = taken ++ t.tokens ∧
      (∀ x ∈ taken, ¬x.kind.isForbidden) ∧
      ∀ before x after, taken = before ++ x :: after → x.kind = .kwFor →
        0 < before.foldl (fun depth t => t.kind.depthAfter depth) d := by
  induction h with
  | refl => exact ⟨hs, [], rfl, List.forall_mem_nil _, by simp⟩
  | @next d s d' t heof hforbidden hfor _ ih =>
    obtain ⟨htokens, htail⟩ := TokenStream.tokens_tail heof hs
    obtain ⟨ht, taken, htaken, hall, hnested⟩ := ih htail
    refine ⟨ht, s.current :: taken, by rw [htokens, htaken]; rfl, ?_, ?_⟩
    · exact List.forall_mem_cons.2 ⟨hforbidden, hall⟩
    · intro before x after hsplit hx
      cases before with
      | nil =>
        obtain ⟨rfl, -⟩ := List.cons.inj hsplit
        exact hfor hx
      | cons first before =>
        obtain ⟨rfl, hrest⟩ := List.cons.inj hsplit
        exact hnested before x after hrest hx

/-- All tokens of a text that is passed to its end. -/
theorem Passes.of_endOfFile {s t : TokenStream} (h : Passes 0 s 0 t) (hs : EndsOnce s.tokens)
    (ht : t.kind = .endOfFile) :
    (∀ x ∈ s.tokens, ¬x.kind.isForbidden) ∧
      ∀ before x after, s.tokens = before ++ x :: after → x.kind = .kwFor →
        0 < openBrackets before := by
  obtain ⟨hends, taken, htokens, hall, hnested⟩ := h.exists_tokens hs
  rw [TokenStream.tokens_of_endOfFile ht hends] at htokens
  rw [htokens]
  constructor
  · intro x hx
    rcases List.mem_append.1 hx with hx | hx
    · exact hall x hx
    · obtain rfl := List.mem_singleton.1 hx
      rw [show t.current.kind = .endOfFile from ht]
      decide
  · intro before x after hsplit hx
    have hne : x ≠ t.current := fun heq => absurd (heq ▸ hx) (by rw [← TokenStream.kind, ht]; nofun)
    obtain ⟨more, -, hmore⟩ | ⟨more, htaken, hmore⟩ := List.append_eq_append_iff.1 hsplit
    · cases more with
      | nil => exact absurd (List.cons.inj hmore).1.symm hne
      | cons y more => exact absurd (List.cons.inj hmore).2.symm (by simp)
    · cases more with
      | nil => exact absurd (List.cons.inj hmore).1 hne
      | cons y more =>
        obtain ⟨rfl, -⟩ := List.cons.inj hmore
        exact hnested before x more htaken hx

/-- The statements of a pure block pass only tokens that it may hold. -/
theorem PureBlock.passes {body : List Stmt} {s t : TokenStream} (hbody : PureBlock body)
    (h : ReadsStmt s (.many TokenStream.hasTokens (body.map .stmt)) t) : Passes 0 s 0 t := by
  refine h.passes ?_
  exact List.forall_mem_map.2 fun st hst => (hbody st hst).harmless

/-- Statements are read as long as the text has not ended. -/
theorem kind_of_hasTokens {parts : List StmtPart} {s t : TokenStream}
    (h : ReadsStmt s (.many TokenStream.hasTokens parts) t) : t.kind = .endOfFile := by
  induction parts generalizing s with
  | nil =>
    cases h with
    | manyDone hmore => simpa [TokenStream.hasTokens] using hmore
  | cons part parts ih =>
    cases h with
    | manyNext _ _ hparts => exact ih hparts

/-- A block without violations holds no word or mark of a forbidden statement, and every `for` in
it stands inside a bracket that is open. -/
theorem tokens_of_violations_eq_nil {code source : String} (h : violations code source = []) :
    ∃ tokens, tokenize code = .ok tokens ∧ (∀ t ∈ tokens, ¬t.kind.isForbidden) ∧
      ∀ before t after, tokens = before ++ t :: after → t.kind = .kwFor →
        0 < openBrackets before := by
  rw [violations, List.map_eq_nil_iff, Purity.findings_eq_nil_iff] at h
  obtain ⟨body, hparse, hbody⟩ := h
  obtain ⟨tokens, htokens, hparse⟩ := exists_tokens_of_parse hparse
  have hends := endsOnce_of_tokenize htokens
  refine ⟨tokens, htokens, ?_⟩
  cases tokens with
  | nil => exact ⟨List.forall_mem_nil _, by simp⟩
  | cons first others =>
    obtain ⟨t, hreads⟩ := readsStmt_of_parseTokens hparse
    exact (hbody.passes hreads).of_endOfFile hends (kind_of_hasTokens hreads)

/-- A generator that stands in the brackets of a call. -/
theorem tokens_of_generator :
    violations "def f(xs):\n    return sum(x for x in xs)\n" "block" = [] ∧
      ∃ tokens, tokenize "def f(xs):\n    return sum(x for x in xs)\n" = .ok tokens ∧
        (∀ t ∈ tokens, ¬t.kind.isForbidden) ∧
        ∀ before t after, tokens = before ++ t :: after → t.kind = .kwFor →
          0 < openBrackets before := by
  have hpure : violations "def f(xs):\n    return sum(x for x in xs)\n" "block" = [] := by
    decide +kernel
  exact ⟨hpure, tokens_of_violations_eq_nil hpure⟩

end NoteCheck.Code
