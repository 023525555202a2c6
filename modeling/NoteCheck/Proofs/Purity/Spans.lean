/-
# Violations with other spans

What is wrong with a block depends on the spans in it only through the lines on which statements and
impure values begin. The main statement, `Purity.topStatement_mapSpan`: where spans are replaced,
the same offences are found, on the lines of the new spans.
-/
import NoteCheck.Code.Purity
import NoteCheck.Proofs.Grammar.Spans
import Mathlib.Data.Option.Basic

namespace NoteCheck.Code

variable {f : Span → Span}

/-- Whether a parameter is plain does not depend on places. -/
theorem isPlain_mapSpan (p : Parameter Expr) : (p.mapSpan f).isPlain = p.isPlain := by
  rw [Parameter.isPlain, Parameter.isPlain, Parameter.mapSpan, Option.isNone_map]
  rfl

namespace Expr

/-- The first impure part of an expression with other spans is the same part. -/
def Moves (f : Span → Span) (e : Expr) : Prop :=
  (e.mapSpan f).firstImpure = e.firstImpure.map (mapSpan f)

theorem map_orElse (a b : Option Expr) :
    (a <|> b).map (mapSpan f) = (a.map (mapSpan f) <|> b.map (mapSpan f)) := by
  cases a <;> rfl

theorem firstImpureIn_map {es : List Expr} (h : ∀ e ∈ es, Moves f e) :
    firstImpureIn (es.map (mapSpan f)) = (firstImpureIn es).map (mapSpan f) := by
  induction es with
  | nil => rfl
  | cons e es ih =>
    obtain ⟨he, hes⟩ := List.forall_mem_cons.1 h
    rw [List.map_cons, firstImpureIn, firstImpureIn, he, ih hes, map_orElse]

theorem firstImpureInOption_map {o : Option Expr} (h : ∀ e ∈ o, Moves f e) :
    firstImpureInOption (o.map (mapSpan f)) = (firstImpureInOption o).map (mapSpan f) := by
  cases o with
  | none => rfl
  | some e => exact h e rfl

theorem firstImpureInLinks_map {links : List (CompareOp × Expr)}
    (h : ∀ link ∈ links, Moves f link.2) :
    firstImpureInLinks (links.map (Prod.map id (mapSpan f))) =
      (firstImpureInLinks links).map (mapSpan f) := by
  induction links with
  | nil => rfl
  | cons link links ih =>
    obtain ⟨hlink, hlinks⟩ := List.forall_mem_cons.1 h
    rw [List.map_cons, Prod.map, firstImpureInLinks, firstImpureInLinks, hlink, ih hlinks,
      map_orElse]

theorem firstImpureInKeywords_map {keywords : List (Option String × Expr)}
    (h : ∀ keyword ∈ keywords, Moves f keyword.2) :
    firstImpureInKeywords (keywords.map (Prod.map id (mapSpan f))) =
      (firstImpureInKeywords keywords).map (mapSpan f) := by
  induction keywords with
  | nil => rfl
  | cons keyword keywords ih =>
    obtain ⟨hkeyword, hkeywords⟩ := List.forall_mem_cons.1 h
    rw [List.map_cons, Prod.map, firstImpureInKeywords, firstImpureInKeywords, hkeyword,
      ih hkeywords, map_orElse]

theorem firstImpureInClauses_map {clauses : List (Clause Expr)}
    (h : ∀ e ∈ clauses.flatMap Clause.parts, Moves f e) :
    firstImpureInClauses (clauses.map (Clause.mapSpan f)) =
      (firstImpureInClauses clauses).map (mapSpan f) := by
  induction clauses with
  | nil => rfl
  | cons c clauses ih =>
    obtain ⟨target, source, filters, isAsync⟩ := c
    simp only [List.flatMap_cons, List.forall_mem_append, Clause.parts, List.forall_mem_cons] at h
    rw [List.map_cons, Clause.mapSpan, firstImpureInClauses, firstImpureInClauses, h.1.2.1,
      firstImpureIn_map h.1.2.2, ih h.2, map_orElse, map_orElse]

/-- A comprehension that is looked at as a whole before its parts. -/
theorem comprehension_map {e element : Expr} {clauses : List (Clause Expr)}
    (h : ∀ d ∈ element :: clauses.flatMap Clause.parts, Moves f d) :
    (if (clauses.map (Clause.mapSpan f)).any Clause.isAsync then some (e.mapSpan f)
      else (element.mapSpan f).firstImpure <|>
        firstImpureInClauses (clauses.map (Clause.mapSpan f))) =
      (if clauses.any Clause.isAsync then some e
        else element.firstImpure <|> firstImpureInClauses clauses).map (mapSpan f) := by
  obtain ⟨helement, hclauses⟩ := List.forall_mem_cons.1 h
  have hasync : (clauses.map (Clause.mapSpan f)).any Clause.isAsync =
      clauses.any Clause.isAsync := by
    rw [List.any_map]
    rfl
  rw [hasync, helement, firstImpureInClauses_map hclauses]
  split
  · rfl
  · rw [map_orElse]

/-- Looking for the first impure part does not depend on spans. -/
theorem firstImpure_mapSpan (e : Expr) : Moves f e := by
  induction e using induction_parts with
  | step e ih =>
  unfold Moves at *
  cases e with
  | tuple | boolean =>
    simp only [mapSpan, mapSpanIn_eq_map, firstImpure]
    exact firstImpureIn_map ih
  | call s callee arguments keywords =>
    simp only [parts, List.forall_mem_cons, List.forall_mem_append, List.forall_mem_map] at ih
    simp only [mapSpan, mapSpanIn_eq_map, mapSpanInKeywords_eq_map, firstImpure, map_orElse, ih.1,
      firstImpureIn_map ih.2.1, firstImpureInKeywords_map ih.2.2]
  | member | unary =>
    simp only [mapSpan, firstImpure]
    exact ih _ (List.mem_singleton_self _)
  | binary s left op right =>
    simp only [parts, List.forall_mem_cons] at ih
    simp only [mapSpan, firstImpure]
    split
    · rw [map_orElse, ih.1, ih.2.1]
    · rfl
  | comparison s left links =>
    simp only [parts, List.forall_mem_cons, List.forall_mem_map] at ih
    simp only [mapSpan, mapSpanInLinks_eq_map, firstImpure, map_orElse, ih.1,
      firstImpureInLinks_map ih.2]
  | subscript s value index =>
    simp only [parts, List.forall_mem_cons] at ih
    simp only [mapSpan, firstImpure, map_orElse, ih.1, ih.2.1]
  | slice s lower upper step =>
    simp only [parts, List.forall_mem_append, Option.mem_toList] at ih
    simp only [mapSpan, mapSpanInOption_eq_map, firstImpure, map_orElse,
      firstImpureInOption_map ih.1.1, firstImpureInOption_map ih.1.2, firstImpureInOption_map ih.2]
  -- whether a parameter is plain does not depend on its spans
  | lambda s parameters body =>
    have hplain : (parameters.map (Parameter.mapSpan f)).all Parameter.isPlain =
        parameters.all Parameter.isPlain := by
      rw [List.all_map]
      exact congrArg parameters.all (funext isPlain_mapSpan)
    simp only [mapSpan, mapSpanInParameters_eq_map, firstImpure, hplain]
    split
    · exact ih body (by simp [parts])
    · simp
  | listComprehension s element clauses =>
    have hwhole := comprehension_map (e := .listComprehension s element clauses) ih
    simpa only [mapSpan, mapSpanInClauses_eq_map, firstImpure] using hwhole
  | generator s element clauses =>
    have hwhole := comprehension_map (e := .generator s element clauses) ih
    simpa only [mapSpan, mapSpanInClauses_eq_map, firstImpure] using hwhole
  | _ => simp [firstImpure]

@[simp] theorem impurity_mapSpan (e : Expr) : (e.mapSpan f).impurity = e.impurity := by
  cases e <;> rfl

@[simp] theorem isTarget_mapSpan (e : Expr) : (e.mapSpan f).isTarget = e.isTarget := by
  cases e <;> simp [isTarget, Function.comp_def]

end Expr

/-! ## What is wrong with statements -/

namespace Purity

variable {g : Nat → Nat} (hf : ∀ s : Span, (f s).line = g s.line)

include hf

/-- What is found about a value moves with it. -/
theorem value_mapSpan (e : Expr) : value (e.mapSpan f) = (value e).map (Prod.map g id) := by
  rw [value, value, e.firstImpure_mapSpan]
  cases e.firstImpure with
  | none => rfl
  | some impure => simp [Expr.line, hf]

theorem returned_map (o : Option Expr) :
    returned (o.map (Expr.mapSpan f)) = (returned o).map (Prod.map g id) := by
  cases o with
  | none => rfl
  | some e => exact value_mapSpan hf e

theorem assignment_map (line : Nat) (targets : List Expr) (assigned : Expr) :
    assignment (g line) (targets.map (Expr.mapSpan f)) (assigned.mapSpan f) =
      (assignment line targets assigned).map (Prod.map g id) := by
  match targets with
  | [] | _ :: _ :: _ => simp [assignment, value_mapSpan hf]
  | [target] =>
    by_cases htarget : target.isTarget = true
    · simp [assignment, value_mapSpan hf, htarget]
    · simp [assignment, value_mapSpan hf, htarget]

/-- What is found about the body of a guard moves with it. -/
theorem oneReturn_map (line : Nat) (offence : Offence) (body : List Stmt) :
    oneReturn (g line) offence (body.map (Stmt.mapSpan f)) =
      (oneReturn line offence body).map (Prod.map g id) := by
  match body with
  | [] | _ :: _ :: _ => simp [oneReturn]
  | [s] =>
    cases s with
    | ret span e => exact returned_map hf e
    | _ => rfl

theorem guardElse_map (orelse : List Stmt) :
    guardElse (orelse.map (Stmt.mapSpan f)) = (guardElse orelse).map (Prod.map g id) := by
  fun_induction guardElse orelse with
  | case1 => simp [guardElse]
  | case2 span test body orelse ih =>
    rw [List.map_append, ← ih, ← oneReturn_map hf, ← hf]
    simp [guardElse]
  | case3 first others hbranch =>
    have hother : ∀ span test body orelse,
        first.mapSpan f = .branch span test body orelse → others.map (Stmt.mapSpan f) = [] →
          False := by
      intro span test body orelse hfirst hothers
      cases first with
      | branch => exact hbranch _ _ _ _ rfl (List.map_eq_nil_iff.1 hothers)
      | _ => cases hfirst
    rw [List.map_cons, guardElse.eq_3 _ _ hother, ← List.map_cons, Stmt.line, Stmt.span_mapSpan, hf,
      oneReturn_map hf]
    rfl

theorem helperStatement_mapSpan (helper : String) (s : Stmt) :
    helperStatement helper (s.mapSpan f) = (helperStatement helper s).map (Prod.map g id) := by
  cases s with
  | assign span targets e =>
    simp only [helperStatement, Stmt.mapSpan, hf, assignment_map hf]
  | ret span e => exact returned_map hf e
  | function _ _ _ _ _ isAsync =>
    cases isAsync <;> simp [helperStatement, Stmt.line, hf, Stmt.span, Stmt.describe]
  | _ => simp [helperStatement, Stmt.line, hf, Stmt.span, Stmt.describe]

omit hf in
theorem decorators_map (line : Nat) (name : String) (decos : List Expr) :
    decorators (g line) name (decos.map (Expr.mapSpan f)) =
      (decorators line name decos).map (Prod.map g id) := by
  cases decos <;> rfl

/-- What is found about a statement of a function moves with it. -/
theorem functionStatement_mapSpan (s : Stmt) :
    functionStatement (s.mapSpan f) = (functionStatement s).map (Prod.map g id) := by
  cases s with
  | function span name parameters returns decos isAsync body =>
    cases isAsync with
    | false =>
      simp only [functionStatement, Stmt.mapSpan, Stmt.mapSpanIn_eq_map, hf, List.map_append,
        decorators_map, List.flatMap_map, List.map_flatMap, helperStatement_mapSpan hf]
    | true => simp [functionStatement, Stmt.line, hf, Stmt.span, Stmt.describe]
  | assign span targets e => simp only [functionStatement, Stmt.mapSpan, hf, assignment_map hf]
  | branch span test body orelse =>
    simp only [functionStatement, Stmt.mapSpan, Stmt.mapSpanIn_eq_map, guard, hf, List.map_append,
      oneReturn_map hf, guardElse_map hf]
  | ret span e => exact returned_map hf e
  | _ => simp [functionStatement, Stmt.line, hf, Stmt.span, Stmt.describe]

/-- What is wrong with a statement with other spans is the same on the lines of these spans. -/
theorem topStatement_mapSpan (s : Stmt) :
    topStatement (s.mapSpan f) = (topStatement s).map (Prod.map g id) := by
  cases s with
  | function span name parameters returns decos isAsync body =>
    cases isAsync with
    | false =>
      simp only [topStatement, Stmt.mapSpan, Stmt.mapSpanIn_eq_map, hf, List.map_append,
        decorators_map, List.flatMap_map, List.map_flatMap, functionStatement_mapSpan hf]
    | true => simp [topStatement, Stmt.line, hf, Stmt.span, Stmt.describe]
  | _ => simp [topStatement, Stmt.line, hf, Stmt.span, Stmt.describe]

end Purity

end NoteCheck.Code
