/-
# Effects inside pure values

A value of a pure block has no effect in what is looked at, which is all of it but the targets of
comprehensions. So it is free of effects at every depth exactly when those targets bind names.
-/
import NoteCheck.Proofs.Grammar.StmtShape
import NoteCheck.Proofs.Purity.PureBlock

namespace NoteCheck.Code

namespace Expr

/-- The targets of the clauses of a comprehension. -/
def targets : Expr → List Expr
  | listComprehension _ _ clauses | generator _ _ clauses | setComprehension _ _ clauses
  | dictComprehension _ _ _ clauses => clauses.map Clause.target
  | _ => []

/-- The parts of an expression apart from those targets. -/
def inspected : Expr → List Expr
  | listComprehension _ element clauses | generator _ element clauses
  | setComprehension _ element clauses =>
    element :: clauses.flatMap fun c => c.source :: c.filters
  | dictComprehension _ key value clauses =>
    key :: value :: clauses.flatMap fun c => c.source :: c.filters
  | e => e.parts

/-- A form that does more than give a value, or an operator outside the pure grammar. -/
def isEffectful : Expr → Bool
  | yield .. | yieldFrom .. | await .. | named .. => true
  | binary _ _ op _ => !op.isArithmetic
  | _ => false

/-- A target that binds a name, or names in a tuple or list. -/
def bindsNames : Expr → Bool
  | name .. => true
  | tuple _ elements | listDisplay _ elements => elements.all isName
  | _ => false

end Expr

/-- An expression stands in another one, at any depth. -/
inductive Within : Expr → Expr → Prop
  | refl {e} : Within e e
  | part {c d e} : d ∈ e.parts → Within c d → Within c e

/-- An expression stands in another one outside the targets of all comprehensions. -/
inductive Exposed : Expr → Expr → Prop
  | refl {e} : Exposed e e
  | part {c d e} : d ∈ e.inspected → Exposed c d → Exposed c e

/-- At every depth there is no effect, and comprehensions bind names only. -/
def Free (v : Expr) : Prop :=
  ∀ d, Within d v → ¬d.isEffectful ∧ ∀ t ∈ d.targets, t.bindsNames

namespace Expr

theorem mem_parts_iff {d e : Expr} : d ∈ e.parts ↔ d ∈ e.inspected ∨ d ∈ e.targets := by
  have hclauses (clauses : List (Clause Expr)) : d ∈ clauses.flatMap Clause.parts ↔
      d ∈ clauses.flatMap (fun c => c.source :: c.filters) ∨ d ∈ clauses.map Clause.target := by
    induction clauses with
    | nil => simp
    | cons c clauses ih =>
      simp only [List.flatMap_cons, List.mem_append, ih, Clause.parts, List.mem_cons,
        List.map_cons]
      tauto
  cases e with
  | listComprehension | generator | setComprehension =>
    simp only [parts, inspected, targets, List.mem_cons, hclauses]
    tauto
  | dictComprehension =>
    simp only [parts, inspected, targets, List.mem_cons, hclauses]
    tauto
  | _ => simp [inspected, targets]

/-- What is looked at in a pure value is pure. -/
theorem IsPure.of_inspected {d e : Expr} (h : e.IsPure) (hannotated : e.Unannotated)
    (hd : d ∈ e.inspected) : d.IsPure := by
  cases h with
  | name | constant => cases hd
  | tuple h | boolean h => exact h d hd
  | call hcallee harguments hkeywords =>
    simp only [inspected, parts, List.mem_cons, List.mem_append, List.mem_map] at hd
    obtain rfl | hd | ⟨keyword, hk, rfl⟩ := hd
    · exact hcallee
    · exact harguments d hd
    · exact hkeywords keyword hk
  | member h | unary h =>
    obtain rfl := List.mem_singleton.1 hd
    exact h
  | binary _ hleft hright | subscript hleft hright =>
    simp only [inspected, parts, List.mem_cons, List.not_mem_nil, or_false] at hd
    obtain rfl | rfl := hd
    · exact hleft
    · exact hright
  | comparison hleft hlinks =>
    simp only [inspected, parts, List.mem_cons, List.mem_map] at hd
    obtain rfl | ⟨link, hl, rfl⟩ := hd
    · exact hleft
    · exact hlinks link hl
  | slice hlower hupper hstep =>
    simp only [inspected, parts, List.mem_append, Option.mem_toList] at hd
    obtain (hd | hd) | hd := hd
    · exact hlower d hd
    · exact hupper d hd
    · exact hstep d hd
  -- a pure lambda has no defaults, and an unannotated one no types
  | lambda hdefault _ hbody =>
    obtain ⟨htypes, -⟩ := hannotated
    simp only [inspected, parts, List.mem_append, List.mem_flatMap, List.mem_singleton] at hd
    obtain ⟨p, hp, hd⟩ | rfl := hd
    · rw [Parameter.parts, htypes p hp, hdefault p hp] at hd
      cases hd
    · exact hbody
  -- the targets of the clauses are not among what is looked at
  | listComprehension _ helement hsource hfilters | generator _ helement hsource hfilters =>
    simp only [inspected, List.mem_cons, List.mem_flatMap] at hd
    obtain rfl | ⟨c, hc, rfl | hd⟩ := hd
    · exact helement
    · exact hsource c hc
    · exact hfilters c hc d hd

theorem IsPure.not_isEffectful {e : Expr} (h : e.IsPure) : ¬e.isEffectful := by
  cases h with
  | binary hop => simp [isEffectful, isArithmetic_iff.2 hop]
  | _ => nofun

theorem bindsNames_of_mem_parts {d t : Expr} (ht : t.bindsNames) (hd : d ∈ t.parts) :
    d.bindsNames := by
  have hname {elements : List Expr} (hall : elements.all isName) (hd : d ∈ elements) :
      d.bindsNames := by
    have hd := List.all_eq_true.1 hall d hd
    cases d with
    | name => rfl
    | _ => cases hd
  cases t with
  | name => cases hd
  | tuple | listDisplay => exact hname ht hd
  | _ => cases ht

/-- Only names, tuples and lists stand in a target that binds names. -/
theorem of_within_bindsNames {d t : Expr} (hd : Within d t) (ht : t.bindsNames) :
    ¬d.isEffectful ∧ d.targets = [] := by
  induction hd with
  | refl =>
    cases d with
    | name | tuple | listDisplay => exact ⟨nofun, rfl⟩
    | _ => cases ht
  | part hd _ ih => exact ih (bindsNames_of_mem_parts ht hd)

end Expr

theorem Exposed.within {d e : Expr} (h : Exposed d e) : Within d e := by
  induction h with
  | refl => exact .refl
  | part hd _ ih => exact .part (Expr.mem_parts_iff.2 (.inl hd)) ih

/-- Nothing in a pure value has an effect outside the targets of comprehensions, whatever these are.
-/
theorem not_isEffectful_of_exposed {v : Expr} (h : v.IsPure) (hannotated : v.Unannotated) :
    ∀ d, Exposed d v → ¬d.isEffectful := by
  intro d hd
  induction hd with
  | refl => exact h.not_isEffectful
  | part hd _ ih =>
    obtain ⟨-, hparts⟩ := id hannotated
    exact ih (h.of_inspected hannotated hd) (hparts _ (Expr.mem_parts_iff.2 (.inl hd)))

/-- A pure value is free exactly when the comprehensions that are looked at bind names. -/
theorem free_iff_of_isPure {v : Expr} (h : v.IsPure) (hannotated : v.Unannotated) :
    Free v ↔ ∀ d, Exposed d v → ∀ t ∈ d.targets, t.bindsNames := by
  constructor
  · intro hfree d hd
    exact (hfree d hd.within).2
  · intro hbinds d hd
    induction hd with
    | refl => exact ⟨h.not_isEffectful, hbinds _ .refl⟩
    | part hd hwithin ih =>
      obtain hd' | hd' := Expr.mem_parts_iff.1 hd
      · obtain ⟨-, hparts⟩ := id hannotated
        exact ih (h.of_inspected hannotated hd') (hparts _ hd)
          fun c hc => hbinds c (.part hd' hc)
      · obtain ⟨heffect, htargets⟩ := Expr.of_within_bindsNames hwithin (hbinds _ .refl _ hd')
        rw [htargets]
        exact ⟨heffect, nofun⟩

/-! ## Values of pure blocks -/

theorem PlainStmt.isPure {st : Stmt} {e : Expr} (h : PlainStmt st) (he : st.Value e) :
    e.IsPure := by
  cases h with
  | assign _ hvalue =>
    cases he
    exact hvalue
  | ret hvalue =>
    cases he
    exact hvalue _ rfl

theorem OneReturn.isPure {body : List Stmt} {st : Stmt} {e : Expr} (h : OneReturn body)
    (hst : st ∈ body) (he : st.Value e) : e.IsPure := by
  obtain ⟨hvalue⟩ := h
  obtain rfl := List.mem_singleton.1 hst
  exact (PlainStmt.ret hvalue).isPure he

theorem Guard.isPure {st : Stmt} {e : Expr} (h : Guard st) (he : st.Value e) : e.IsPure := by
  induction h with
  | alone hbody =>
    cases he with
    | body hst he => exact hbody.isPure hst he
    | orelse hst he => cases hst
  | elseReturn hbody horelse =>
    cases he with
    | body hst he => exact hbody.isPure hst he
    | orelse hst he => exact horelse.isPure hst he
  | elseGuard hbody _ ih =>
    cases he with
    | body hst he => exact hbody.isPure hst he
    | orelse hst he =>
      obtain rfl := List.mem_singleton.1 hst
      exact ih he

theorem FunctionStmt.isPure {st : Stmt} {e : Expr} (h : FunctionStmt st) (he : st.Value e) :
    e.IsPure := by
  cases h with
  | plain h => exact h.isPure he
  | guard h => exact h.isPure he
  | helper hbody =>
    cases he with
    | function hst he => exact (hbody _ hst).isPure he

theorem TopStmt.isPure {st : Stmt} {e : Expr} (h : TopStmt st) (he : st.Value e) : e.IsPure := by
  obtain ⟨hbody⟩ := h
  cases he with
  | function hst he => exact (hbody _ hst).isPure he

/-- No lambda in a value of a text has a parameter with an annotation. -/
theorem unannotated_of_parse {code : String} {body : List Stmt} (h : parse code = .ok body) :
    ∀ st ∈ body, ∀ v, st.Value v → v.Unannotated := by
  intro st hst v hv
  obtain ⟨tokens, htokenize, h⟩ := exists_tokens_of_parse h
  exact ((wellFormed_of_parseTokens htokenize h st hst).value hv).unannotated

/-- In a value that a block without violations assigns or returns, nothing has an effect outside the
targets of comprehensions. The value is free of effects altogether exactly when every comprehension
in it, outside the targets of others, binds names. -/
theorem free_iff_of_violations_eq_nil {code source : String} (h : violations code source = []) :
    ∃ body, parse code = .ok body ∧ ∀ st ∈ body, ∀ v, st.Value v →
      (∀ d, Exposed d v → ¬d.isEffectful) ∧
        (Free v ↔ ∀ d, Exposed d v → ∀ t ∈ d.targets, t.bindsNames) := by
  rw [violations, List.map_eq_nil_iff, Purity.findings_eq_nil_iff] at h
  obtain ⟨body, hparse, hbody⟩ := h
  refine ⟨body, hparse, fun st hst v hv => ?_⟩
  have hpure : v.IsPure := (hbody st hst).isPure hv
  have hannotated : v.Unannotated := unannotated_of_parse hparse st hst v hv
  exact ⟨not_isEffectful_of_exposed hpure hannotated, free_iff_of_isPure hpure hannotated⟩

/-- A comprehension that binds a name. -/
theorem free_iff_of_name_target :
    violations "def f(xs):\n    return [x for x in xs]\n" "block" = [] ∧
      ∃ body, parse "def f(xs):\n    return [x for x in xs]\n" = .ok body ∧
        ∀ st ∈ body, ∀ v, st.Value v →
          (∀ d, Exposed d v → ¬d.isEffectful) ∧
            (Free v ↔ ∀ d, Exposed d v → ∀ t ∈ d.targets, t.bindsNames) := by
  have hpure : violations "def f(xs):\n    return [x for x in xs]\n" "block" = [] := by
    decide +kernel
  exact ⟨hpure, free_iff_of_violations_eq_nil hpure⟩

/-- The target of a comprehension that the only function of a block returns at once. -/
def returnedTarget? : Except SyntaxError (List Stmt) → Option Expr
  | .ok [.function _ _ _ _ _ _ [.ret _ (some (.listComprehension _ _ [c]))]] => some c.target
  | _ => none

theorem exists_of_returnedTarget? {found : Except SyntaxError (List Stmt)}
    (h : (returnedTarget? found).all Expr.bindsNames = false) :
    ∃ body, found = .ok body ∧ ∃ st ∈ body, ∃ v, st.Value v ∧ ∃ t ∈ v.targets, ¬t.bindsNames := by
  unfold returnedTarget? at h
  split at h
  · rename_i c
    refine ⟨_, rfl, _, List.mem_singleton_self _, _, .function (List.mem_singleton_self _) .ret,
      c.target, List.mem_singleton_self _, ?_⟩
    rw [Option.all_some] at h
    rw [h]
    exact Bool.false_ne_true
  · cases h

/-- A comprehension whose target is an attribute passes, although it is not free of effects. -/
theorem not_free_of_attribute_target :
    violations "def f(g):\n    return [x for g.a in g]\n" "block" = [] ∧
      ∃ body, parse "def f(g):\n    return [x for g.a in g]\n" = .ok body ∧
        ∃ st ∈ body, ∃ v, st.Value v ∧ ¬Free v := by
  refine ⟨by decide +kernel, ?_⟩
  have htarget : (returnedTarget? (parse "def f(g):\n    return [x for g.a in g]\n")).all
      Expr.bindsNames = false := by decide +kernel
  obtain ⟨body, hparse, st, hst, v, hv, t, ht, hnames⟩ := exists_of_returnedTarget? htarget
  refine ⟨body, hparse, st, hst, v, hv, fun hfree => ?_⟩
  exact hnames ((hfree v .refl).2 t ht)

end NoteCheck.Code
