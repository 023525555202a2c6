/-
# Passing over a statement with a block

A statement with a block whose contents are passed over ends with the mark that closes its block,
whatever stands in the block. The main statement, `parseTokens_skipped`: what follows such a
statement is read as it is by itself, to the same statements or the same error.
-/
import Mathlib.Data.List.Infix
import NoteCheck.Proofs.Grammar.BoundedStmt

namespace NoteCheck.Code

/-! ## Streams at the beginning of lists -/

namespace TokenStream

/-- A stream at the first token of a list, after a token that takes the given part of the text. -/
def ofList (last : Span) (tokens : List Token) (h : tokens ≠ []) : TokenStream :=
  ⟨last, tokens.head h, tokens.tail⟩

variable {s t : TokenStream} {last : Span} {a : Token} {l : List Token}

/-- A stream that is made of tokens has these tokens. -/
theorem tokens_ofList (h : l ≠ []) : (ofList last l h).tokens = l := List.cons_head_tail h

/-- A stream that is made of tokens has as many of them. -/
theorem fuel_ofList (h : l ≠ []) : (ofList last l h).fuel = l.length :=
  congrArg List.length (tokens_ofList h)

/-- After its first token, a stream is made of the others. -/
theorem tail_ofList (ha : a.kind ≠ .endOfFile) (h : l ≠ []) :
    (ofList last (a :: l) (List.cons_ne_nil a l)).tail = ofList a.span l h := by
  obtain ⟨next, ahead, rfl⟩ := List.exists_cons_of_ne_nil h
  exact tail_eq_of_ahead ha rfl

/-- The part of the text that the token before a stream takes is forgotten with the next token. -/
theorem tail_eq_of_tokens (h : s.tokens = t.tokens) (hs : s.Closed)
    (hkind : s.kind ≠ .endOfFile) : s.tail = t.tail := by
  obtain ⟨last, a, ahead⟩ := s
  obtain ⟨last', b, ahead'⟩ := t
  obtain ⟨rfl, rfl⟩ : a = b ∧ ahead = ahead' := List.cons.inj h
  cases ahead with
  | nil => exact absurd (hs a rfl) hkind
  | cons next ahead =>
    have htail : (⟨last, a, next :: ahead⟩ : TokenStream).tail = ⟨a.span, next, ahead⟩ :=
      tail_eq_of_ahead hkind rfl
    have htail' : (⟨last', a, next :: ahead⟩ : TokenStream).tail = ⟨a.span, next, ahead⟩ :=
      tail_eq_of_ahead hkind rfl
    rw [htail, htail']

end TokenStream

namespace Parse

/-! ## Reading forgets what came before -/

section Forgets

variable {α β : Type} {s t : TokenStream} (h : s.tokens = t.tokens) (hs : s.Closed)
  (hkind : s.kind ≠ .endOfFile)

/-- A chain of readings is the same in both streams when its first part is. -/
theorem bind_eq_of_eq {p : Parse α} {k : α → Parse β} (hp : p s = p t) :
    (p >>= k) s = (p >>= k) t := by
  simp only [bind, StateT.bind, hp]

include h

/-- Streams with the same tokens stand before one kind. -/
theorem kind_eq_of_tokens : s.kind = t.kind := congrArg Token.kind (List.cons.inj h).1

/-- Streams with the same tokens have as many of them. -/
theorem fuel_eq_of_tokens : s.fuel = t.fuel := congrArg List.length h

/-- The fault of a token that is out of place does not depend on what stood before it. -/
theorem unexpected_eq : (unexpected : Parse α) s = unexpected t := by
  show Except.error _ = Except.error _
  rw [(List.cons.inj h).1]

/-- A loop does not depend on what stood before it when its first round does not. -/
theorem loop_eq_of_round {round : α → Parse (α ⊕ β)} {a : α} (hround : round a s = round a t) :
    loop round a s = loop round a t := by
  show rounds _ round (s.ahead.length + 1) a s = rounds _ round (t.ahead.length + 1) a t
  rw [(List.cons.inj h).2]
  exact bind_eq_of_eq hround

include hs hkind

/-- After a token, nothing depends on what stood before it. -/
theorem advance_bind_eq {k : Token → Parse β} : (advance >>= k) s = (advance >>= k) t := by
  rw [advance_bind, advance_bind, (List.cons.inj h).1, TokenStream.tail_eq_of_tokens h hs hkind]

/-- Whether an expected token is there does not depend on what stood before it. -/
theorem expect_eq (kind : TokenKind) : expect kind s = expect kind t := by
  rw [expect, kind_bind, kind_bind, ← kind_eq_of_tokens h]
  split
  · exact advance_bind_eq h hs hkind (k := pure)
  · exact unexpected_eq h

/-- An expression does not depend on what stood before it. -/
theorem exprOf_eq {expr : BindingPower → Parse Expr} (power : BindingPower) :
    exprOf expr power s = exprOf expr power t := by
  rw [exprOf, kind_bind, kind_bind, ← kind_eq_of_tokens h]
  cases s.kind.opening? with
  | none => exact unexpected_eq h
  | some opening => exact bind_eq_of_eq (advance_bind_eq h hs hkind)

/-- A tuple without parentheses does not depend on what stood before it. -/
theorem exprList_eq (power : BindingPower) : exprList power s = exprList power t := by
  refine bind_eq_of_eq ?_
  show exprWithin s.fuel power s = exprWithin t.fuel power t
  rw [← fuel_eq_of_tokens h]
  exact exprOf_eq h hs hkind power

/-- A statement on a line of its own does not depend on what stood before it. -/
theorem lineStmt_eq : lineStmt s = lineStmt t := by
  rw [lineStmt, kind_bind, kind_bind, ← kind_eq_of_tokens h]
  cases s.kind.lineForm? with
  | none => exact bind_eq_of_eq (exprList_eq h hs hkind .default)
  | some form =>
    cases form with
    | ret | skipped => exact advance_bind_eq h hs hkind

/-- The head of a clause does not depend on what stood before it. -/
theorem skipHead_eq : skipHead s = skipHead t := by
  refine loop_eq_of_round h ?_
  rw [kind_bind, kind_bind, ← kind_eq_of_tokens h]
  generalize s.kind = kind
  split
  · exact unexpected_eq h
  · exact unexpected_eq h
  · exact advance_bind_eq h hs hkind

/-- A statement that is passed over does not depend on what stood before it. -/
theorem skipped_eq (start : Span) (form : SkippedForm) :
    skipped start form s = skipped start form t :=
  bind_eq_of_eq (bind_eq_of_eq (bind_eq_of_eq (skipHead_eq h hs hkind)))

variable {stmt : Parse Stmt}

/-- A function does not depend on what stood before it. -/
theorem function_eq (start : Span) (decorators : List Expr) (isAsync : Bool) :
    function stmt start decorators isAsync s = function stmt start decorators isAsync t :=
  bind_eq_of_eq (expect_eq h hs hkind .kwDef)

/-- What decorators belong to does not depend on what stood before them. -/
theorem decorated_eq (start : Span) (hat : s.kind = .atSign) :
    decorated stmt start s = decorated stmt start t := by
  refine bind_eq_of_eq (loop_eq_of_round h ?_)
  rw [get_bind, get_bind, if_pos (decide_eq_true hat),
    if_pos (decide_eq_true (kind_eq_of_tokens h ▸ hat))]
  exact bind_eq_of_eq (bind_eq_of_eq (expect_eq h hs hkind .atSign))

/-- A statement does not depend on what stood before it. -/
theorem stmtOf_eq : stmtOf stmt s = stmtOf stmt t := by
  rw [stmtOf, get_bind, get_bind, kind_bind, kind_bind, ← kind_eq_of_tokens h,
    ← (List.cons.inj h).1]
  cases hform : s.kind.blockForm? with
  | none => exact bind_eq_of_eq (lineStmt_eq h hs hkind)
  | some form =>
    cases form with
    | function => exact function_eq h hs hkind _ _ _
    | decorated =>
      refine decorated_eq h hs hkind _ ?_
      generalize s.kind = kind at hform
      cases kind <;> first | rfl | cases hform
    | async => exact advance_bind_eq h hs hkind
    | branch => exact bind_eq_of_eq (advance_bind_eq h hs hkind)
    | skipped form => exact skipped_eq h hs hkind _ form

/-- A statement is read alike wherever the token before it stands. -/
theorem stmt_eq_of_tokens : Parse.stmt s = Parse.stmt t := by
  rw [stmt_eq, stmt_eq, ← fuel_eq_of_tokens h]
  exact stmtOf_eq h hs hkind

end Forgets

end Parse

/-! ## Nested marks -/

/-- Marks nest: none closes before it has opened, and each one that opens closes. -/
structure Nest (opens closes : TokenKind → Bool) (tokens : List Token) : Prop where
  closings : ∀ before, before <+: tokens →
    before.countP (closes ·.kind) ≤ before.countP (opens ·.kind)
  closed : tokens.countP (closes ·.kind) = tokens.countP (opens ·.kind)

/-- The statements whose contents are passed over, by their first words. -/
def skippedForms : List (TokenKind × SkippedForm) :=
  [(.kwFor, .forLoop), (.kwWhile, .whileLoop), (.kwTry, .tryBlock), (.kwWith, .withBlock),
    (.kwClass, .classDefinition)]

/-- The head of a statement whose contents are passed over: tokens of one line, with a colon at the
end that is the only one outside brackets. -/
structure IsHead (form : SkippedForm) (first : Token) (more : List Token) : Prop where
  opens : (first.kind, form) ∈ skippedForms
  inLine : ∀ t ∈ first :: more, t.kind ∉ [TokenKind.newline, .indent, .dedent, .endOfFile]
  brackets : Nest TokenKind.opensGroup TokenKind.closesGroup (first :: more)
  ends : ∀ last ∈ (first :: more).getLast?, last.kind = .colon
  colon : ∀ i (hi : i < (first :: more).length), (first :: more)[i].kind = .colon →
    ((first :: more).take i).countP (·.kind.closesGroup) =
      ((first :: more).take i).countP (·.kind.opensGroup) → i = more.length

/-- What stands in a block. -/
structure IsBlock (block : List Token) : Prop where
  text : ∀ t ∈ block, t.kind ≠ .endOfFile
  nested : Nest (· = .indent) (· = .dedent) block

/-- The words of the forms whose contents are passed over open statements of these forms. -/
theorem blockForm?_of_mem_skippedForms {kind : TokenKind} {form : SkippedForm}
    (h : (kind, form) ∈ skippedForms) : kind.blockForm? = some (.skipped form) := by
  simp only [skippedForms, List.mem_cons, Prod.mk.injEq, List.not_mem_nil, or_false] at h
  obtain ⟨rfl, rfl⟩ | ⟨rfl, rfl⟩ | ⟨rfl, rfl⟩ | ⟨rfl, rfl⟩ | ⟨rfl, rfl⟩ := h
  all_goals rfl

namespace Parse

open TokenStream

/-! ## The head -/

/-- A round in which a token of a head is passed over. -/
def headRound (depth : Nat) : Parse (Nat ⊕ Unit) := do
  match ← kind with
  | .endOfFile | .newline => unexpected
  | kind =>
    let _ ← advance
    if kind = .colon ∧ depth = 0 then return .inr () else return .inl (kind.depthAfter depth)

/-- A colon outside brackets ends a head. -/
theorem headRound_of_colon {s : TokenStream} (h : s.kind = .colon) :
    headRound 0 s = .ok (.inr (), s.tail) := by
  rw [headRound, kind_bind, h]
  rfl

/-- Any other token of a head is passed over, and brackets are counted. -/
theorem headRound_of_not {s : TokenStream} {depth : Nat} (hend : s.kind ≠ .endOfFile)
    (hline : s.kind ≠ .newline) (h : ¬(s.kind = .colon ∧ depth = 0)) :
    headRound depth s = .ok (.inl (s.kind.depthAfter depth), s.tail) := by
  rw [headRound, kind_bind]
  generalize s.kind = kind at *
  split
  · contradiction
  · contradiction
  · rw [advance_bind, if_neg h]
    rfl

/-- The number of brackets that are open after one more token. -/
theorem countP_concat_depthAfter {before : List Token} {t : Token} {depth : Nat}
    (hdepth : before.countP (·.kind.closesGroup) + depth = before.countP (·.kind.opensGroup))
    (hnest : (before ++ [t]).countP (·.kind.closesGroup) ≤
      (before ++ [t]).countP (·.kind.opensGroup)) :
    (before ++ [t]).countP (·.kind.closesGroup) + t.kind.depthAfter depth =
      (before ++ [t]).countP (·.kind.opensGroup) := by
  rw [List.countP_append, List.countP_append, List.countP_singleton,
    List.countP_singleton] at hnest ⊢
  rw [TokenKind.depthAfter]
  by_cases hopens : t.kind.opensGroup = true
  · have hcloses : t.kind.closesGroup = false := by
      generalize t.kind = kind at hopens
      cases kind <;> first | rfl | cases hopens
    simp only [hopens, hcloses, Bool.false_eq_true, if_true, if_false]
    omega
  · by_cases hcloses : t.kind.closesGroup = true
    · simp only [hopens, hcloses, Bool.false_eq_true, if_true, if_false] at hnest ⊢
      omega
    · simp only [hopens, hcloses, Bool.false_eq_true, if_false]
      omega

/-- The rest of a head is passed over up to its colon, with as many brackets open as have been
opened before and not closed. -/
theorem runs_headRound {form : SkippedForm} {first : Token} {more rest : List Token}
    (h : IsHead form first more) (hrest : rest ≠ []) {before left : List Token}
    (hleft : first :: more = before ++ left) (hne : left ≠ []) {depth : Nat}
    (hdepth : before.countP (·.kind.closesGroup) + depth = before.countP (·.kind.opensGroup))
    (last : Span) : ∃ last', Runs headRound depth
      (ofList last (left ++ rest) (List.append_ne_nil_of_left_ne_nil hne rest)) ()
      (ofList last' rest hrest) := by
  induction left generalizing before depth last with
  | nil => exact absurd rfl hne
  | cons t left ih =>
    have hlines := h.inLine t (hleft ▸ List.mem_append_right before List.mem_cons_self)
    simp only [List.mem_cons, List.not_mem_nil, or_false, not_or] at hlines
    obtain ⟨hline, -, -, hend⟩ := hlines
    have hnest : before ++ [t] <+: first :: more := ⟨left, by rw [hleft, List.append_assoc]; rfl⟩
    by_cases hcolon : t.kind = .colon ∧ depth = 0
    · obtain ⟨hcolon, rfl⟩ := hcolon
      obtain rfl : left = [] := by
        have hlast := h.colon before.length (by simp [hleft]) (by simpa [hleft] using hcolon)
          (by simpa [hleft] using hdepth)
        have hlength := congrArg List.length hleft
        rw [List.length_append, List.length_cons, List.length_cons] at hlength
        exact List.length_eq_zero_iff.1 (by omega)
      have htail : (ofList last (t :: rest) (List.cons_ne_nil t rest)).tail =
          ofList t.span rest hrest := tail_ofList hend hrest
      exact ⟨t.span, .last (htail ▸ headRound_of_colon hcolon)⟩
    · have hdepth' := countP_concat_depthAfter hdepth (h.brackets.closings _ hnest)
      have hne' : left ≠ [] := by
        rintro rfl
        -- The last token is a colon, at which no bracket is open.
        have hkind : t.kind = .colon := h.ends t (by rw [hleft, List.getLast?_concat]; rfl)
        rw [← hleft, h.brackets.closed, hkind] at hdepth'
        exact hcolon ⟨hkind, Nat.add_eq_left.1 hdepth'⟩
      have hleft' : left ++ rest ≠ [] := List.append_ne_nil_of_left_ne_nil hne' rest
      have htail : (ofList last (t :: (left ++ rest)) (List.cons_ne_nil t _)).tail =
          ofList t.span (left ++ rest) hleft' := tail_ofList hend hleft'
      obtain ⟨last', hruns⟩ := ih (by rw [hleft, List.append_assoc]; rfl) hne' hdepth' t.span
      refine ⟨last', .next (htail ▸ headRound_of_not hend hline hcolon) ?_ hruns⟩
      rw [fuel_ofList, fuel_ofList]
      exact Nat.lt_succ_self _

/-- A head is passed over up to its colon. -/
theorem skipHead_ofList {form : SkippedForm} {first : Token} {more rest : List Token}
    (h : IsHead form first more) (hrest : rest ≠ []) (last : Span) :
    ∃ last', skipHead (ofList last (first :: more ++ rest) (List.cons_ne_nil first _)) =
      .ok ((), ofList last' rest hrest) := by
  obtain ⟨last', hruns⟩ := runs_headRound h hrest (List.nil_append (first :: more)).symm
    (List.cons_ne_nil first more) (Nat.add_zero _) last
  exact ⟨last', hruns.loop_eq_ok⟩

/-! ## The block -/

/-- A round in which a token of a block is passed over. -/
def blockRound (depth : Nat) : Parse (Nat ⊕ Unit) := do
  let kind ← kind
  if kind = .endOfFile then unexpected
  else
    let _ ← advance
    match kind, depth with
    | .indent, depth => return .inl (depth + 1)
    | .dedent, 0 => return .inr ()
    | .dedent, depth + 1 => return .inl depth
    | _, depth => return .inl depth

/-- The mark that closes the block ends it. -/
theorem blockRound_of_dedent {s : TokenStream} (h : s.kind = .dedent) :
    blockRound 0 s = .ok (.inr (), s.tail) := by
  rw [blockRound, kind_bind, h]
  rfl

/-- A token of a block is passed over, unless it closes more blocks than have begun. -/
theorem blockRound_of_not {s : TokenStream} {depth depth' : Nat} (hend : s.kind ≠ .endOfFile)
    (h : depth' + (if s.kind = .dedent then 1 else 0) = depth + if s.kind = .indent then 1 else 0) :
    blockRound depth s = .ok (.inl depth', s.tail) := by
  rw [blockRound, kind_bind, if_neg hend, advance_bind]
  by_cases hindent : s.kind = .indent
  · obtain rfl : depth' = depth + 1 := by simpa [hindent] using h
    rw [hindent]
    rfl
  · by_cases hdedent : s.kind = .dedent
    · obtain rfl : depth' + 1 = depth := by simpa [hdedent] using h
      rw [hdedent]
      rfl
    · obtain rfl : depth' = depth := by simpa [hindent, hdedent] using h
      generalize s.kind = kind at *
      split
      · contradiction
      · contradiction
      · contradiction
      · rfl

/-- The rest of a block is passed over together with what closes it, with as many blocks inside it
open as have begun before and not ended. -/
theorem runs_blockRound {block rest : List Token} {closing : Token} (h : IsBlock block)
    (hclosing : closing.kind = .dedent) (hrest : rest ≠ []) {before left : List Token}
    (hleft : block = before ++ left) {depth : Nat}
    (hdepth : before.countP (·.kind = .dedent) + depth = before.countP (·.kind = .indent))
    (last : Span) : Runs blockRound depth
      (ofList last (left ++ closing :: rest)
        (List.append_ne_nil_of_right_ne_nil left (List.cons_ne_nil closing rest))) ()
      (ofList closing.span rest hrest) := by
  -- by induction on what is left of the block, with the count of what stands before it
  induction left generalizing before depth last with
  | nil =>
    obtain rfl : depth = 0 := by
      rw [List.append_nil] at hleft
      have hclosed : block.countP (·.kind = .dedent) = block.countP (·.kind = .indent) :=
        h.nested.closed
      rw [hleft] at hclosed
      omega
    have hend : closing.kind ≠ .endOfFile := by rw [hclosing]; decide
    have htail : (ofList last (closing :: rest) (List.cons_ne_nil closing rest)).tail =
        ofList closing.span rest hrest := tail_ofList hend hrest
    exact .last (htail ▸ blockRound_of_dedent hclosing)
  | cons t left ih =>
    have hend := h.text t (hleft ▸ List.mem_append_right before List.mem_cons_self)
    have hbefore : block = (before ++ [t]) ++ left := by rw [hleft, List.append_assoc]; rfl
    have hnest : (before ++ [t]).countP (·.kind = .dedent) ≤
        (before ++ [t]).countP (·.kind = .indent) := h.nested.closings _ ⟨left, hbefore.symm⟩
    have hleft' : left ++ closing :: rest ≠ [] :=
      List.append_ne_nil_of_right_ne_nil left (List.cons_ne_nil closing rest)
    have htail : (ofList last (t :: (left ++ closing :: rest)) (List.cons_ne_nil t _)).tail =
        ofList t.span (left ++ closing :: rest) hleft' := tail_ofList hend hleft'
    rw [List.countP_append, List.countP_append, List.countP_singleton,
      List.countP_singleton] at hnest
    simp only [decide_eq_true_eq] at hnest
    obtain ⟨depth', hdepth'⟩ : ∃ depth', depth' + (if t.kind = .dedent then 1 else 0) =
        depth + if t.kind = .indent then 1 else 0 := ⟨_, Nat.sub_add_cancel (by omega)⟩
    have hround := blockRound_of_not
      (s := ofList last (t :: (left ++ closing :: rest)) (List.cons_ne_nil t _)) hend hdepth'
    have hdepth : (before ++ [t]).countP (·.kind = .dedent) + depth' =
        (before ++ [t]).countP (·.kind = .indent) := by
      rw [List.countP_append, List.countP_append, List.countP_singleton, List.countP_singleton]
      simp only [decide_eq_true_eq]
      omega
    refine .next (htail ▸ hround) ?_ (ih hbefore hdepth t.span)
    rw [fuel_ofList, fuel_ofList]
    exact Nat.lt_succ_self _

/-- A block is passed over up to the mark that closes it, whatever is in it. -/
theorem skipBlock_ofList {block rest : List Token} {closing : Token} (h : IsBlock block)
    (hclosing : closing.kind = .dedent) (hrest : rest ≠ []) (last : Span) :
    skipBlock (ofList last (block ++ closing :: rest)
      (List.append_ne_nil_of_right_ne_nil block (List.cons_ne_nil closing rest))) =
      .ok ((), ofList closing.span rest hrest) :=
  (runs_blockRound h hclosing hrest (List.nil_append block).symm rfl last).loop_eq_ok

/-! ## The statement -/

section Statement

variable {form : SkippedForm} {first lineEnd opening closing : Token} {more block rest : List Token}
  (hhead : IsHead form first more) (hlineEnd : lineEnd.kind = .newline)
  (hopening : opening.kind = .indent) (hblock : IsBlock block) (hclosing : closing.kind = .dedent)
  (hrest : rest ≠ [])

include hhead hlineEnd hopening hblock hclosing

/-- A clause is passed over with its block. -/
theorem skipClause_ofList (last : Span) :
    skipClause (ofList last (first :: more ++ lineEnd :: opening :: (block ++ closing :: rest))
      (List.cons_ne_nil first _)) = .ok ((), ofList closing.span rest hrest) := by
  obtain ⟨last', hskip⟩ := skipHead_ofList hhead
    (List.cons_ne_nil lineEnd (opening :: (block ++ closing :: rest))) last
  have hinside : block ++ closing :: rest ≠ [] :=
    List.append_ne_nil_of_right_ne_nil block (List.cons_ne_nil closing rest)
  have hline : lineEnd.kind ≠ .endOfFile := by rw [hlineEnd]; decide
  have hindent : opening.kind ≠ .endOfFile := by rw [hopening]; decide
  refine bind_eq_ok.2 ⟨(), _, hskip, skip?_bind_eq_ok.2 (.inl ⟨hlineEnd, ?_⟩)⟩
  rw [if_pos rfl, tail_ofList hline (List.cons_ne_nil opening _)]
  refine expect_bind_eq_ok.2 ⟨hopening, ?_⟩
  rw [tail_ofList hindent hinside]
  exact skipBlock_ofList hblock hclosing hrest opening.span

/-- A statement is passed over with its block, and takes the text up to the end of it. -/
theorem skipped_ofList (hnext : continuesBlock (rest.head hrest).kind = false) (start last : Span) :
    skipped start form
      (ofList last (first :: more ++ lineEnd :: opening :: (block ++ closing :: rest))
        (List.cons_ne_nil first _)) =
      .ok (.skipped (start.through closing.span) form, ofList closing.span rest hrest) := by
  have hclauses := skipClause_ofList hhead hlineEnd hopening hblock hclosing hrest last
  have hloop : skipClauses
      (ofList last (first :: more ++ lineEnd :: opening :: (block ++ closing :: rest))
        (List.cons_ne_nil first _)) = .ok ((), ofList closing.span rest hrest) := by
    have hstop : ¬continuesBlock (ofList closing.span rest hrest).kind = true :=
      ne_true_of_eq_false hnext
    refine bind_eq_ok.2 ⟨(), _, hclauses, Runs.loop_eq_ok (.last ?_)⟩
    rw [kind_bind, if_neg hstop]
    rfl
  exact bind_eq_ok.2 ⟨(), _, hloop, rfl⟩

/-- A statement with a block whose contents are passed over is read up to what closes its block. -/
theorem stmt_ofList (hnext : continuesBlock (rest.head hrest).kind = false) (last : Span) :
    stmt (ofList last (first :: more ++ lineEnd :: opening :: (block ++ closing :: rest))
      (List.cons_ne_nil first _)) =
      .ok (.skipped (first.span.through closing.span) form, ofList closing.span rest hrest) := by
  rw [stmt_eq, fuel_ofList]
  show stmtOf _ _ = _
  have hform := blockForm?_of_mem_skippedForms hhead.opens
  rw [stmtOf, get_bind, kind_bind]
  refine Eq.trans ?_
    (skipped_ofList hhead hlineEnd hopening hblock hclosing hrest hnext first.span last)
  rw [show (ofList last (first :: more ++ lineEnd :: opening :: (block ++ closing :: rest))
    (List.cons_ne_nil first _)).kind = first.kind from rfl, hform]
  rfl

end Statement

/-- Statements are read alike wherever the token before the first one stands. -/
theorem block_eq_of_tokens {s t : TokenStream} (h : s.tokens = t.tokens) (hs : s.Closed) :
    (block s).map Prod.fst = (block t).map Prod.fst := by
  have ht : t.Closed := fun last hlast => hs last (h ▸ hlast)
  rw [block, manyWhile_eq takes_stmt.on hs (Nat.le_refl _),
    manyWhile_eq takes_stmt.on ht (Nat.le_refl _)]
  have hmore : t.hasTokens = s.hasTokens := by rw [hasTokens, hasTokens, kind_eq_of_tokens h]
  rw [hmore]
  by_cases hkind : s.hasTokens = true
  · rw [if_pos hkind]
    exact congrArg (Except.map Prod.fst)
      (bind_eq_of_eq (stmt_eq_of_tokens h hs (bne_iff_ne.1 hkind)))
  · rw [if_neg hkind]
    rfl

/-- Statements after one that has been read are read after it. -/
theorem block_of_stmt {s t : TokenStream} {a : Stmt} (hs : s.Closed) (hkind : s.kind ≠ .endOfFile)
    (h : stmt s = .ok (a, t)) :
    (block s).map Prod.fst = ((block t).map Prod.fst).map (a :: ·) := by
  have hmore : s.hasTokens = true := bne_iff_ne.2 hkind
  rw [block, manyWhile_eq takes_stmt.on hs (Nat.le_refl _), if_pos hmore]
  simp only [bind, StateT.bind, h, Except.bind]
  cases manyWhile hasTokens stmt t <;> rfl

end Parse

open Parse TokenStream

/-- What follows a statement with a block whose contents are passed over is read as it is by itself,
whatever stands in the block. -/
theorem parseTokens_skipped {form : SkippedForm} {first lineEnd opening closing : Token}
    {more block rest : List Token} (hhead : IsHead form first more)
    (hlineEnd : lineEnd.kind = .newline) (hopening : opening.kind = .indent)
    (hblock : IsBlock block)
    (hclosing : closing.kind = .dedent) (hrest : rest ≠ [])
    (hends : (rest.getLast hrest).kind = .endOfFile)
    (hnext : (rest.head hrest).kind ∉ [TokenKind.kwElse, .kwElif, .kwExcept, .kwFinally]) :
    parseTokens (first :: more ++ lineEnd :: opening :: (block ++ closing :: rest)) =
      (parseTokens rest).map (.skipped (first.span.through closing.span) form :: ·) := by
  have hnext' : continuesBlock (rest.head hrest).kind = false := by
    simp only [List.mem_cons, List.not_mem_nil, or_false, not_or] at hnext
    simp [continuesBlock, hnext]
  have hstmt := stmt_ofList hhead hlineEnd hopening hblock hclosing hrest hnext' first.span
  obtain ⟨next, ahead, rfl⟩ := List.exists_cons_of_ne_nil hrest
  have hclosed : (ofTokens next ahead).Closed := by
    intro t ht
    rw [← Option.some.inj ((List.getLast?_eq_some_getLast hrest).symm.trans ht)]
    exact hends
  have hwhole : (ofTokens first
      (more ++ lineEnd :: opening :: (block ++ closing :: next :: ahead))).Closed := by
    intro t ht
    refine hclosed t ?_
    have htokens : first :: (more ++ lineEnd :: opening :: (block ++ closing :: next :: ahead)) =
        (first :: more ++ lineEnd :: opening :: (block ++ [closing])) ++ next :: ahead := by simp
    rwa [tokens, ofTokens, htokens, List.getLast?_append_cons] at ht
  have hkind : first.kind ≠ .endOfFile := fun h => by
    simpa [h] using hhead.inLine first List.mem_cons_self
  have hclosed' : (ofList closing.span (next :: ahead) hrest).Closed := hclosed
  -- both sides are the block of statements that follows, read at two places with the same tokens
  refine (parseTokens_eq_iff hwhole).2 ?_
  calc
    _ = ((Parse.block (ofList closing.span (next :: ahead) hrest)).map Prod.fst).map
        (.skipped (first.span.through closing.span) form :: ·) := block_of_stmt hwhole hkind hstmt
    _ = ((Parse.block (ofTokens next ahead)).map Prod.fst).map
        (.skipped (first.span.through closing.span) form :: ·) :=
      congrArg _ (block_eq_of_tokens rfl hclosed')
    _ = ((parseTokens (next :: ahead)).mapError .fault).map
        (.skipped (first.span.through closing.span) form :: ·) := by
      rw [(parseTokens_eq_iff hclosed).1 rfl]
    _ = _ := by cases parseTokens (next :: ahead) <;> rfl

/-- A `while` with a slice in its head and a block that holds another one, before a `return`. -/
theorem parseTokens_skipped_nested :
    let mark (kind : TokenKind) : Token := ⟨kind, "", ⟨.start, .start⟩⟩
    parseTokens
      (mark .kwWhile :: [.identifier, .openBracket, .colon, .closeBracket, .colon].map mark ++
        mark .newline :: mark .indent ::
        ([.kwIf, .colon, .newline, .indent, .kwElse, .dedent, .closeParen, .newline].map mark ++
          mark .dedent :: [.kwReturn, .newline, .endOfFile].map mark)) =
      .ok [.skipped ⟨.start, .start⟩ .whileLoop, .ret ⟨.start, .start⟩ none] := by
  intro mark
  have hhead : IsHead .whileLoop (mark .kwWhile)
      ([.identifier, .openBracket, .colon, .closeBracket, .colon].map mark) :=
    { opens := by decide
      inLine := by decide
      brackets := ⟨by simp only [← List.mem_inits]; decide, by decide⟩
      ends := by decide
      colon := by decide }
  have hblock : IsBlock
      ([.kwIf, .colon, .newline, .indent, .kwElse, .dedent, .closeParen, .newline].map mark) :=
    { text := by decide
      nested := ⟨by simp only [← List.mem_inits]; decide, by decide⟩ }
  exact (parseTokens_skipped hhead rfl rfl hblock rfl (by decide) (by decide) (by decide)).trans rfl

end NoteCheck.Code
