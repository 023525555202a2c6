/-
# The parts of expressions and statements

The expressions that stand directly inside an expression, and induction over them; and the
expressions and statements that stand directly inside a statement.
-/
import NoteCheck.Code.Stmt
import Mathlib.Tactic.Common

namespace NoteCheck.Code

/-- The expressions of a clause, with its target. -/
def Clause.parts (c : Clause Expr) : List Expr := c.target :: c.source :: c.filters

/-- The expressions of a parameter. -/
def Parameter.parts (p : Parameter Expr) : List Expr :=
  Option.toList (Parameter.annotation p) ++ p.default.toList

namespace Expr

/-- The expressions directly inside an expression, in the order of their fields. -/
def parts : Expr → List Expr
  | name .. | constant .. | formattedString .. => []
  | tuple _ elements | listDisplay _ elements | setDisplay _ elements | boolean _ _ elements =>
    elements
  | dictDisplay _ entries => entries.flatMap fun entry => entry.1.toList ++ [entry.2]
  | call _ callee arguments keywords => callee :: (arguments ++ keywords.map Prod.snd)
  | member _ value _ | unary _ _ value | starred _ value | await _ value | yieldFrom _ value =>
    [value]
  | binary _ left _ right => [left, right]
  | comparison _ left links => left :: links.map Prod.snd
  | subscript _ value index => [value, index]
  | slice _ lower upper step => lower.toList ++ upper.toList ++ step.toList
  | conditional _ test body orelse => [test, body, orelse]
  | lambda _ parameters body => parameters.flatMap Parameter.parts ++ [body]
  | listComprehension _ element clauses | generator _ element clauses
  | setComprehension _ element clauses => element :: clauses.flatMap Clause.parts
  | dictComprehension _ key value clauses => key :: value :: clauses.flatMap Clause.parts
  | named _ target value => [target, value]
  | yield _ value => value.toList

/-! ## Induction over parts -/

/-- A value is smaller than the pairs that have it. -/
theorem sizeOf_snd_lt_of_mem {α : Type} [SizeOf α] {e : Expr} {pairs : List (α × Expr)}
    (h : e ∈ pairs.map Prod.snd) : sizeOf e < sizeOf pairs := by
  obtain ⟨⟨a, _⟩, hpair, rfl⟩ := List.mem_map.1 h
  have := List.sizeOf_lt_of_mem hpair
  simp at this ⊢
  omega

/-- An expression that may be left out is smaller than the option. -/
theorem sizeOf_lt_of_mem_toList {e : Expr} {o : Option Expr} (h : e ∈ o.toList) :
    sizeOf e < sizeOf o := by
  obtain rfl := Option.mem_toList.1 h
  simp

/-- A part of a clause is smaller than the clauses. -/
theorem sizeOf_lt_of_mem_clause {e : Expr} {clauses : List (Clause Expr)}
    (h : e ∈ clauses.flatMap Clause.parts) : sizeOf e < sizeOf clauses := by
  obtain ⟨⟨target, source, filters, isAsync⟩, hc, he⟩ := List.mem_flatMap.1 h
  have := List.sizeOf_lt_of_mem hc
  simp [Clause.parts] at this he
  obtain rfl | rfl | he := he
  · omega
  · omega
  · have := List.sizeOf_lt_of_mem he
    omega

/-- A part of a parameter is smaller than the parameters. -/
theorem sizeOf_lt_of_mem_parameter {e : Expr} {parameters : List (Parameter Expr)}
    (h : e ∈ parameters.flatMap Parameter.parts) : sizeOf e < sizeOf parameters := by
  obtain ⟨⟨name, kind, annotation, default⟩, hp, he⟩ := List.mem_flatMap.1 h
  have := List.sizeOf_lt_of_mem hp
  simp [Parameter.parts] at this he
  obtain rfl | rfl := he
  · simp at this
    omega
  · simp at this
    omega

/-- A key or a value is smaller than the entries of its dict. -/
theorem sizeOf_lt_of_mem_entry {e : Expr} {entries : List (Option Expr × Expr)}
    (h : e ∈ entries.flatMap fun entry => entry.1.toList ++ [entry.2]) :
    sizeOf e < sizeOf entries := by
  obtain ⟨⟨key, value⟩, hentry, he⟩ := List.mem_flatMap.1 h
  have := List.sizeOf_lt_of_mem hentry
  simp at this he
  obtain rfl | rfl := he
  · simp at this
    omega
  · omega

/-- An expression is larger than each of its parts. -/
theorem sizeOf_lt_of_mem_parts {d e : Expr} (h : d ∈ e.parts) : sizeOf d < sizeOf e := by
  cases e with
  -- the cases are grouped by where the parts are kept: in a list, in pairs, in fields
  | name | constant | formattedString => cases h
  | tuple | listDisplay | setDisplay | boolean =>
    rw [parts] at h
    have := List.sizeOf_lt_of_mem h
    simp only [tuple.sizeOf_spec, listDisplay.sizeOf_spec, setDisplay.sizeOf_spec,
      boolean.sizeOf_spec]
    omega
  | dictDisplay =>
    have := sizeOf_lt_of_mem_entry h
    rw [dictDisplay.sizeOf_spec]
    omega
  | call s callee arguments keywords =>
    rw [call.sizeOf_spec]
    rw [parts, List.mem_cons, List.mem_append] at h
    obtain rfl | h | h := h
    · omega
    · have := List.sizeOf_lt_of_mem h
      omega
    · have := sizeOf_snd_lt_of_mem h
      omega
  | member | unary | starred | await | yieldFrom =>
    obtain rfl := List.mem_singleton.1 h
    simp only [member.sizeOf_spec, unary.sizeOf_spec, starred.sizeOf_spec, await.sizeOf_spec,
      yieldFrom.sizeOf_spec]
    omega
  | binary | subscript | named =>
    simp only [parts, List.mem_cons, List.not_mem_nil, or_false] at h
    simp only [binary.sizeOf_spec, subscript.sizeOf_spec, named.sizeOf_spec]
    obtain rfl | rfl := h
    · omega
    · omega
  | conditional =>
    simp only [parts, List.mem_cons, List.not_mem_nil, or_false] at h
    rw [conditional.sizeOf_spec]
    obtain rfl | rfl | rfl := h
    · omega
    · omega
    · omega
  | comparison s left links =>
    rw [comparison.sizeOf_spec]
    obtain rfl | h := List.mem_cons.1 h
    · omega
    · have := sizeOf_snd_lt_of_mem h
      omega
  | slice =>
    rw [slice.sizeOf_spec]
    rw [parts, List.mem_append, List.mem_append] at h
    obtain (h | h) | h := h
    all_goals
      have := sizeOf_lt_of_mem_toList h
      omega
  | lambda s parameters body =>
    rw [lambda.sizeOf_spec]
    rw [parts, List.mem_append, List.mem_singleton] at h
    obtain h | rfl := h
    · have := sizeOf_lt_of_mem_parameter h
      omega
    · omega
  | listComprehension | generator | setComprehension =>
    simp only [listComprehension.sizeOf_spec, generator.sizeOf_spec, setComprehension.sizeOf_spec]
    obtain rfl | h := List.mem_cons.1 h
    · omega
    · have := sizeOf_lt_of_mem_clause h
      omega
  | dictComprehension s key value clauses =>
    rw [dictComprehension.sizeOf_spec]
    rw [parts, List.mem_cons, List.mem_cons] at h
    obtain rfl | rfl | h := h
    · omega
    · omega
    · have := sizeOf_lt_of_mem_clause h
      omega
  | yield =>
    rw [yield.sizeOf_spec]
    have := sizeOf_lt_of_mem_toList h
    omega

/-- What holds of an expression whenever it holds of its parts holds of all expressions. -/
theorem induction_parts {P : Expr → Prop} (step : ∀ e : Expr, (∀ d ∈ e.parts, P d) → P e)
    (e : Expr) : P e :=
  step e fun d _ => induction_parts step d
termination_by sizeOf e
decreasing_by exact sizeOf_lt_of_mem_parts ‹_›

end Expr

namespace Stmt

/-- The expressions directly inside a statement. -/
def exprs : Stmt → List Expr
  | function _ _ parameters returns decorators _ _ =>
    decorators ++ parameters.flatMap Parameter.parts ++ returns.toList
  | assign _ targets value => targets ++ [value]
  | augmentedAssign _ target _ value => [target, value]
  | annotatedAssign _ target annotation value => target :: annotation :: value.toList
  | ret _ value => value.toList
  | branch _ test .. => [test]
  | expression _ value => [value]
  | skipped .. => []

/-- The statements directly inside a statement. -/
def stmts : Stmt → List Stmt
  | function _ _ _ _ _ _ body => body
  | branch _ _ body orelse => body ++ orelse
  | _ => []

/-- An expression that is assigned or returned in a statement, or in a statement inside it. -/
inductive Value : Stmt → Expr → Prop
  | assign {s targets e} : Value (.assign s targets e) e
  | augmentedAssign {s target op e} : Value (.augmentedAssign s target op e) e
  | annotatedAssign {s target annotation e} :
      Value (.annotatedAssign s target annotation (some e)) e
  | ret {s e} : Value (.ret s (some e)) e
  | function {s name parameters returns decorators isAsync body st e} : st ∈ body → Value st e →
      Value (.function s name parameters returns decorators isAsync body) e
  | body {s test body orelse st e} : st ∈ body → Value st e → Value (.branch s test body orelse) e
  | orelse {s test body orelse st e} : st ∈ orelse → Value st e →
      Value (.branch s test body orelse) e

end Stmt

end NoteCheck.Code
