/-
# The grammar of pure blocks

What a pure block is made of, as rules, and the proof that a block without violations is exactly a
block that can be read and follows the rules.
-/
import NoteCheck.Proofs.Purity.PureExpr

namespace NoteCheck.Code

/-! ## The grammar -/

/-- What may be assigned to: a name, or names in a tuple or list that is not empty. -/
inductive Target : Expr → Prop
  | name {s id} : Target (.name s id)
  | tuple {s elements} : elements ≠ [] → (∀ e ∈ elements, e.isName) → Target (.tuple s elements)
  | listDisplay {s elements} : elements ≠ [] → (∀ e ∈ elements, e.isName) →
      Target (.listDisplay s elements)

/-- An assignment to one target, or a return. -/
inductive PlainStmt : Stmt → Prop
  | assign {s target value} : Target target → value.IsPure → PlainStmt (.assign s [target] value)
  | ret {s value} : (∀ e ∈ value, e.IsPure) → PlainStmt (.ret s value)

/-- Statements that are exactly one return. -/
inductive OneReturn : List Stmt → Prop
  | ret {s value} : (∀ e ∈ value, e.IsPure) → OneReturn [.ret s value]

/-- A condition that guards exactly one return. Its else part is empty, exactly one return or
exactly one guard. -/
inductive Guard : Stmt → Prop
  | alone {s test body} : OneReturn body → Guard (.branch s test body [])
  | elseReturn {s test body orelse} : OneReturn body → OneReturn orelse →
      Guard (.branch s test body orelse)
  | elseGuard {s test body next} : OneReturn body → Guard next →
      Guard (.branch s test body [next])

/-- A statement of a function: a plain one, a guard, or a helper function of plain ones. -/
inductive FunctionStmt : Stmt → Prop
  | plain {st} : PlainStmt st → FunctionStmt st
  | guard {st} : Guard st → FunctionStmt st
  | helper {s name parameters returns body} : (∀ st ∈ body, PlainStmt st) →
      FunctionStmt (.function s name parameters returns [] false body)

/-- A statement at the top level: a function without decorators. -/
inductive TopStmt : Stmt → Prop
  | function {s name parameters returns body} : (∀ st ∈ body, FunctionStmt st) →
      TopStmt (.function s name parameters returns [] false body)

/-- The statements of a pure block. -/
def PureBlock (body : List Stmt) : Prop := ∀ st ∈ body, TopStmt st

/-- A guard is a condition. -/
theorem Guard.eq_branch {st : Stmt} (h : Guard st) :
    ∃ s test body orelse, st = .branch s test body orelse := by
  cases h <;> exact ⟨_, _, _, _, rfl⟩

/-! ## Findings -/

namespace Purity

/-- Nothing is found about a value just if it is pure. -/
theorem value_eq_nil_iff {e : Expr} : value e = [] ↔ e.IsPure := by
  rw [← Expr.firstImpure_eq_none_iff, value]
  cases e.firstImpure with
  | none => exact iff_of_true rfl rfl
  | some impure => exact iff_of_false nofun nofun

/-- Nothing is found about what is returned just if it is pure or left out. -/
theorem returned_eq_nil_iff {o : Option Expr} : returned o = [] ↔ ∀ e ∈ o, e.IsPure := by
  cases o with
  | none => exact iff_of_true rfl nofun
  | some e => simp [returned, value_eq_nil_iff]

/-- The check of targets decides their grammar. -/
theorem isTarget_iff {e : Expr} : e.isTarget ↔ Target e := by
  constructor
  · intro h
    cases e with
    | name => exact .name
    | tuple s elements =>
      simp [Expr.isTarget] at h
      exact .tuple h.1 h.2
    | listDisplay s elements =>
      simp [Expr.isTarget] at h
      exact .listDisplay h.1 h.2
    | _ => cases h
  · intro h
    cases h with
    | name => rfl
    | tuple hne hnames => simpa [Expr.isTarget] using ⟨hne, hnames⟩
    | listDisplay hne hnames => simpa [Expr.isTarget] using ⟨hne, hnames⟩

/-- Nothing is found about an assignment just if it is a plain statement. -/
theorem assignment_eq_nil_iff {s : Span} {line : Nat} {targets : List Expr} {e : Expr} :
    assignment line targets e = [] ↔ PlainStmt (.assign s targets e) := by
  match targets with
  | [target] =>
    rw [assignment, List.append_eq_nil_iff, value_eq_nil_iff]
    by_cases htarget : target.isTarget
    · rw [if_pos htarget]
      exact ⟨fun h => .assign (isTarget_iff.1 htarget) h.2, fun | .assign _ he => ⟨rfl, he⟩⟩
    · rw [if_neg htarget]
      exact iff_of_false nofun fun | .assign h _ => htarget (isTarget_iff.2 h)
  | [] | _ :: _ :: _ => exact iff_of_false nofun nofun

/-- Nothing is found about the body of a guard just if it is one return statement. -/
theorem oneReturn_eq_nil_iff {line : Nat} {offence : Offence} {body : List Stmt} :
    oneReturn line offence body = [] ↔ OneReturn body := by
  constructor
  · intro h
    unfold oneReturn at h
    split at h
    · exact .ret (returned_eq_nil_iff.1 h)
    · cases h
  · rintro ⟨h⟩
    exact returned_eq_nil_iff.2 h

/-- A guard is without findings exactly when it and its else part follow the rules. -/
theorem guard_eq_nil_iff {s : Span} {test : Expr} {line : Nat} {body orelse : List Stmt} :
    guard line body orelse = [] ↔ Guard (.branch s test body orelse) := by
  rw [guard, List.append_eq_nil_iff, oneReturn_eq_nil_iff]
  constructor
  · rintro ⟨hbody, horelse⟩
    -- along the chain of else parts, as it is looked through
    induction orelse using guardElse.induct generalizing s test body with
    | case1 => exact .alone hbody
    | case2 span test' body' orelse' ih =>
      rw [guardElse, List.append_eq_nil_iff, oneReturn_eq_nil_iff] at horelse
      exact .elseGuard hbody (ih horelse.1 horelse.2)
    | case3 first others hbranch =>
      rw [guardElse, oneReturn_eq_nil_iff] at horelse
      · exact .elseReturn hbody horelse
      · exact hbranch
  · intro h
    -- the induction needs a statement that is a variable
    generalize hst : Stmt.branch s test body orelse = st at h
    induction h generalizing s test body orelse with
    | alone hbody =>
      cases hst
      exact ⟨hbody, by rw [guardElse]⟩
    | elseReturn hbody horelse =>
      cases hst
      obtain ⟨he⟩ := horelse
      refine ⟨hbody, ?_⟩
      rw [guardElse, oneReturn_eq_nil_iff]
      · exact .ret he
      · nofun
    | elseGuard hbody hnext ih =>
      cases hst
      refine ⟨hbody, ?_⟩
      obtain ⟨span, test', body', orelse', rfl⟩ := hnext.eq_branch
      obtain ⟨hbody', horelse'⟩ := ih rfl
      rw [guardElse, List.append_eq_nil_iff, oneReturn_eq_nil_iff]
      exact ⟨hbody', horelse'⟩

/-- Nothing is found about decorators just if there are none. -/
theorem decorators_eq_nil_iff {line : Nat} {name : String} {decos : List Expr} :
    decorators line name decos = [] ↔ decos = [] := by
  cases decos with
  | nil => exact iff_of_true rfl rfl
  | cons => exact iff_of_false nofun nofun

/-- Nothing is found about a statement of a helper just if it is plain. -/
theorem helperStatement_eq_nil_iff {helper : String} {st : Stmt} :
    helperStatement helper st = [] ↔ PlainStmt st := by
  cases st with
  | assign => exact assignment_eq_nil_iff
  | ret s e =>
    rw [helperStatement, returned_eq_nil_iff]
    exact ⟨.ret, fun | .ret h => h⟩
  | _ => exact iff_of_false nofun nofun

/-- Nothing is found about a statement of a function just if it follows the grammar of function
bodies. -/
theorem functionStatement_eq_nil_iff {st : Stmt} : functionStatement st = [] ↔ FunctionStmt st := by
  cases st with
  | assign s targets e =>
    rw [functionStatement, assignment_eq_nil_iff (s := s)]
    exact ⟨.plain, fun | .plain h => h⟩
  | ret s e =>
    rw [functionStatement, returned_eq_nil_iff]
    exact ⟨fun h => .plain (.ret h), fun | .plain (.ret h) => h⟩
  | branch s test body orelse =>
    show guard s.line body orelse = [] ↔ FunctionStmt (.branch s test body orelse)
    rw [guard_eq_nil_iff]
    exact ⟨.guard, fun | .guard h => h⟩
  | function s name parameters returns decos isAsync body =>
    -- an asynchronous function is refused before its body is looked at
    cases isAsync with
    | true => exact iff_of_false nofun nofun
    | false =>
      rw [functionStatement, List.append_eq_nil_iff, decorators_eq_nil_iff,
        List.flatMap_eq_nil_iff]
      simp only [helperStatement_eq_nil_iff]
      constructor
      · rintro ⟨rfl, hbody⟩
        exact .helper hbody
      · rintro (h | h | ⟨hbody⟩)
        · cases h
        · cases h
        · exact ⟨rfl, hbody⟩
  | _ =>
    refine iff_of_false nofun ?_
    rintro (h | h | _)
    · cases h
    · cases h

/-- Nothing is found about a statement of a block just if it follows the grammar of blocks. -/
theorem topStatement_eq_nil_iff {st : Stmt} : topStatement st = [] ↔ TopStmt st := by
  match st with
  | .function s name parameters returns decos false body =>
    rw [topStatement, List.append_eq_nil_iff, decorators_eq_nil_iff, List.flatMap_eq_nil_iff]
    simp only [functionStatement_eq_nil_iff]
    constructor
    · rintro ⟨rfl, hbody⟩
      exact .function hbody
    · rintro ⟨hbody⟩
      exact ⟨rfl, hbody⟩
  | .function _ _ _ _ _ true _ | .assign .. | .augmentedAssign .. | .annotatedAssign .. | .ret ..
  | .branch .. | .expression .. | .skipped .. => exact iff_of_false nofun nofun

/-- Nothing is found about a code just if it is read as a pure block. -/
theorem findings_eq_nil_iff {code : String} :
    findings code = [] ↔ ∃ body, parse code = .ok body ∧ PureBlock body := by
  rw [findings]
  cases parse code with
  | error e => exact iff_of_false nofun nofun
  | ok body =>
    rw [List.flatMap_eq_nil_iff]
    simp only [topStatement_eq_nil_iff]
    constructor
    · intro h
      exact ⟨body, rfl, h⟩
    · rintro ⟨_, hbody, h⟩
      obtain rfl := Except.ok.inj hbody
      exact h

end Purity

/-- A block has no violations exactly when it can be read and is made as the grammar says. -/
theorem violations_eq_nil_iff (code source : String) :
    violations code source = [] ↔ ∃ body, parse code = .ok body ∧ PureBlock body := by
  rw [violations, List.map_eq_nil_iff, Purity.findings_eq_nil_iff]

end NoteCheck.Code
