/-
# Reading goes on and ends

A loop stops with `Halt.exhausted` after as many rounds as there are tokens left, and so does what
is nested deeper than the depth allows. Reading a list of tokens that ends with the end of the text
never comes to that: whatever opens or continues an expression and every statement goes on past a
token (`Parse.progresses_of_tokens`), and where a list of tokens is read as a block, the text has
ended.
-/
import NoteCheck.Proofs.Grammar.BoundedStmt
import NoteCheck.Proofs.Results

namespace NoteCheck.Code

namespace Parse

variable {α : Type} {s t : TokenStream} {depth : Nat}

/-! ## Chains of conditions -/

/-- What follows a condition and what it guards. -/
def afterGuarded (stmt other : Parse Stmt) (first : Guarded) : Parse Stmt := do
  let orelse ← match ← kind with
    | .kwElif => List.singleton <$> other
    | .kwElse =>
      let _ ← advance
      suiteOf stmt
    | _ => pure []
  return .branch (← spanFrom first.start) first.test first.body orelse

/-- A chain of conditions of which each further one is a part of the one before it, nested at most
to the given depth. -/
def branchWithin (stmt : Nat → Parse Stmt) : Nat → Parse Stmt
  | 0 => throw .exhausted
  | depth + 1 => guarded (stmt depth) >>= afterGuarded (stmt depth) (branchWithin stmt depth)

/-- What follows a condition is read alike when statements and further conditions are. -/
theorem keeps_afterGuarded {stmt stmt' other other' : Parse Stmt} (h : Takes depth stmt stmt')
    (hother : Takes depth other other') (first : Guarded) :
    Keeps depth (afterGuarded stmt other first) (afterGuarded stmt' other' first) := by
  have hrest (orelse : List Stmt) : Keeps depth
      (do return Stmt.branch (← spanFrom first.start) first.test first.body orelse)
      (do return Stmt.branch (← spanFrom first.start) first.test first.body orelse) :=
    .spanFrom fun _ => .pure rfl
  refine .kind fun kind => ?_
  split
  · rw [map_eq_pure_bind, map_eq_pure_bind, bind_assoc, bind_assoc]
    exact hother.bind fun _ => .pureBind (hrest _)
  · exact .advance fun _ => (takes_suiteOf h).bind hrest
  · exact .pureBind (hrest _)

/-- A chain of conditions is one condition, and a chain as the else part if another one follows. -/
theorem branch_eq {stmt : Parse Stmt} (h : Takes depth stmt stmt) (hs : s.Closed)
    (hfuel : s.fuel ≤ depth + 1) :
    branch stmt s = (guarded stmt >>= afterGuarded stmt (branch stmt)) s := by
  refine bind_congr_of_ok rfl fun first t ht => ?_
  obtain ⟨honward, hless⟩ := (takes_guarded h hs hfuel trivial).moves first t ht
  have hnext : Bounded depth (fun s => (s.kind = .kwElif : Bool) = true) (fun _ => 1) (guarded stmt)
      (guarded stmt) := ((takes_guarded h).within (Nat.le_succ depth)).on
  have hothers := manyWhile_eq hnext (hs.of_suffix honward.suffix) (by omega)
  refine (bind_congr_of_ok hothers fun _ _ _ => rfl).trans ?_
  rw [afterGuarded, kind_bind]
  -- another condition is read on its own, together with the chain that goes on after it
  by_cases helif : t.kind = .kwElif
  · rw [if_pos (decide_eq_true helif), helif]
    simp only [bind_assoc, pure_bind, branch, map_eq_pure_bind]
    refine bind_congr_of_ok rfl fun next u _ => bind_congr_of_ok rfl fun others v _ => ?_
    refine bind_congr_of_ok rfl fun found w _ => ?_
    cases found with
    | true =>
      simp only [if_true, bind_assoc]
      rfl
    | false => rfl
  · rw [if_neg (mt of_decide_eq_true helif), pure_bind, skip?, bind_assoc, kind_bind]
    generalize t.kind = kind at helif
    by_cases helse : kind = .kwElse
    · rw [if_pos helse, helse]
      rfl
    · rw [if_neg helse]
      split
      · contradiction
      · contradiction
      · rfl

/-- A chain of conditions is read within the bound on the depth also where each further condition
counts as nested in the one before it. -/
theorem takes_branchWithin {i : Nat} (hi : depth ≤ i + 1) :
    Takes depth (branch (stmtWithin i)) (branchWithin stmtWithin depth) := by
  induction depth with
  | zero => exact fun _ _ hfuel => absurd hfuel (Nat.not_succ_le_zero _)
  | succ depth ih =>
    have hstmt : Takes depth (stmtWithin i) (stmtWithin depth) :=
      takes_stmtWithin (Nat.le_of_succ_le_succ hi) (Nat.le_refl _)
    have hchain : Takes (depth + 1) (guarded (stmtWithin i) >>= afterGuarded (stmtWithin i)
        (branch (stmtWithin i))) (branchWithin stmtWithin (depth + 1)) :=
      (takes_guarded hstmt).bindWithin (keeps_afterGuarded hstmt (ih (by omega)))
    intro s hs hfuel _
    have hsame : Takes depth (stmtWithin i) (stmtWithin i) :=
      takes_stmtWithin (Nat.le_of_succ_le_succ hi) (Nat.le_of_succ_le_succ hi)
    exact (hchain hs hfuel trivial).of_eq (branch_eq hsame hs hfuel) rfl

/-! ## Progress -/

/-- A reading that ends, and where it succeeds leaves a token after the one where it began. -/
structure Progresses (p : Parse α) (s : TokenStream) : Prop where
  ends : p s ≠ .error .exhausted
  moves : ∀ a t, p s = .ok (a, t) → t.tokens <:+ s.ahead

/-- Reading that takes a token within a bound makes progress. -/
theorem Fits.progresses {p q : Parse α} (h : p.Fits (fun _ => 1) q s) : p.Progresses s := by
  refine ⟨h.ends, fun a t ht => ?_⟩
  obtain ⟨honward, hless⟩ := h.moves a t ht
  obtain hall | hrest := List.suffix_cons_iff.1 honward.suffix
  · have hfuel : t.fuel = s.fuel := congrArg List.length hall
    omega
  · exact hrest

/-- What holds of reading from a place where the nesting is bounded by the given depth. -/
structure ReadsWithin (depth : Nat) (s : TokenStream) : Prop where
  opened : ∀ opening, s.kind.opening? = some opening →
    (opened (exprWithin depth) opening).Progresses s
  continued : ∀ left continuation, s.kind.continuation? = some continuation →
    (continued (exprWithin depth) left continuation).Progresses s
  expr : ∀ power, (exprWithin depth power).Progresses s ∧ exprWithin depth power s = expr power s
  exprList : ∀ power, (exprListOf (exprWithin depth) power).Progresses s
  parameters : ∀ closing annotations,
    parametersOf (exprWithin depth) closing annotations s ≠ .error .exhausted
  clauses : clausesOf (exprWithin depth) s ≠ .error .exhausted
  elements : ∀ first closing, closing ≠ .endOfFile →
    (elementsAfter (exprWithin depth) first closing).Progresses s
  entries : ∀ start entries, dictAfter (exprWithin depth) start entries s ≠ .error .exhausted
  index : ∀ start, (subscriptIndex (exprWithin depth) start).Progresses s
  line : lineStmt.Progresses s
  skippedLine : skipUntil endsLine s ≠ .error .exhausted
  skippedClause : skipClause.Progresses s
  skippedClauses : skipClauses.Progresses s
  suite : (suiteOf (stmtWithin depth)).Progresses s
  stmt : (stmtWithin depth).Progresses s ∧ stmtWithin depth s = stmt s
  chain : (branchWithin stmtWithin depth).Progresses s ∧
    branchWithin stmtWithin depth s = branch (stmtWithin depth) s

/-- All that is read from a closed stream is read within its number of tokens. -/
theorem readsWithin_of_closed (hs : s.Closed) (hfuel : s.fuel ≤ depth) : ReadsWithin depth s := by
  -- the bound on the depth is the number of tokens, which no reading function uses up
  have hexpr : ∀ power, Takes depth (exprWithin depth power) (exprWithin depth power) :=
    takes_exprWithin (Nat.le_refl _) (Nat.le_refl _)
  have hstmt : Takes depth (stmtWithin depth) (stmtWithin depth) :=
    takes_stmtWithin (Nat.le_refl _) (Nat.le_refl _)
  constructor
  case opened =>
    exact fun opening hkind => (takes_opened hexpr opening hs (by omega) hkind).progresses
  case continued =>
    exact fun left c hkind => (takes_continued hexpr left c hs hfuel hkind).progresses
  case expr =>
    refine fun power => ⟨(hexpr power hs hfuel trivial).progresses, ?_⟩
    exact (takes_exprWithin hfuel (Nat.le_refl _) power hs (Nat.le_refl _) trivial).same
  case exprList => exact fun power => (takes_exprListOf hexpr power hs hfuel trivial).progresses
  case parameters =>
    exact fun closing annotations =>
      (keeps_parametersOf hexpr closing annotations hs hfuel trivial).ends
  case clauses => exact (keeps_clausesOf hexpr hs hfuel trivial).ends
  case elements =>
    exact fun first closing hclosing =>
      (takes_elementsAfter hexpr first hclosing hs hfuel trivial).progresses
  case entries =>
    exact fun start entries => (keeps_dictAfter hexpr start entries hs hfuel trivial).ends
  case index => exact fun start => (takes_subscriptIndex hexpr start hs hfuel trivial).progresses
  case line => exact (takes_lineStmt hs hfuel trivial).progresses
  case skippedLine => exact (keeps_skipUntil rfl hs hfuel trivial).ends
  case skippedClause => exact (takes_skipClause hs hfuel trivial).progresses
  case skippedClauses => exact (takes_skipClauses hs hfuel trivial).progresses
  case suite => exact (takes_suiteOf hstmt hs hfuel trivial).progresses
  case stmt =>
    refine ⟨(hstmt hs hfuel trivial).progresses, ?_⟩
    rw [stmt_eq]
    exact (takes_stmtWithin hfuel (Nat.le_refl _) hs (Nat.le_refl _) trivial).same
  case chain =>
    have hchain := (takes_branchWithin (Nat.le_succ _) hs hfuel trivial).symm
    exact ⟨hchain.progresses, hchain.same⟩

/-- A block that is read ends at the end of the tokens. -/
theorem kind_of_block {body : List Stmt} (h : block s = .ok (body, t)) : t.kind = .endOfFile :=
  manyWhile_induction (P := fun _ _ t => t.kind = .endOfFile) (fun hdone =>
    bne_eq_false_iff_eq.1 hdone)
    (fun _ _ => id) h

/-- Reading a list of tokens that ends with the end of the text ends. From every place in it, what
opens or continues an expression and every statement goes on past a token; no loop has more rounds
than there are tokens left, and nothing is nested deeper than that. A block is read up to the end of
the text. -/
theorem progresses_of_tokens (first : Token) (others : List Token)
    (hlast : ∀ last ∈ (first :: others).getLast?, last.kind = .endOfFile) :
    (∀ s : TokenStream, s.tokens <:+ first :: others → ∀ depth, s.fuel ≤ depth →
      ReadsWithin depth s) ∧
    block (.ofTokens first others) ≠ .error .exhausted ∧
    ∀ body t, block (.ofTokens first others) = .ok (body, t) →
      t.kind = .endOfFile ∧ t.tokens <:+ first :: others := by
  have hclosed : (TokenStream.ofTokens first others).Closed := hlast
  have hblock := keeps_block hclosed (Nat.le_refl _) trivial
  refine ⟨fun s hs depth hfuel => ?_, hblock.ends, fun body t ht => ?_⟩
  · exact readsWithin_of_closed (hclosed.of_suffix hs) hfuel
  · exact ⟨kind_of_block ht, (hblock.moves body t ht).1.suffix⟩

/-- A line with a name on it. -/
theorem progresses_of_name_line :
    let name : Token := ⟨.identifier, "x", ⟨1, 1⟩, ⟨1, 2⟩⟩
    let lineEnd : Token := ⟨.newline, "", ⟨1, 2⟩, ⟨2, 1⟩⟩
    let stop : Token := ⟨.endOfFile, "", ⟨2, 1⟩, ⟨2, 1⟩⟩
    ReadsWithin 3 (.ofTokens name [lineEnd, stop]) ∧
      ∃ body t, block (.ofTokens name [lineEnd, stop]) = .ok (body, t) ∧ t.kind = .endOfFile := by
  intro name lineEnd stop
  obtain ⟨hreads, -, hend⟩ := progresses_of_tokens name [lineEnd, stop] (by decide)
  obtain ⟨⟨body, t⟩, hblock⟩ : ∃ r, block (.ofTokens name [lineEnd, stop]) = .ok r :=
    Results.exists_of_isOk (by decide +kernel)
  exact ⟨hreads _ List.suffix_rfl 3 (Nat.le_refl _), body, t, hblock, (hend body t hblock).1⟩

end Parse

end NoteCheck.Code
