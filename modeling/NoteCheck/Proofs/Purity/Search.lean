/-
# The first impure part

Looking for an impure part is a search through a list: all the expressions in the positions where
values are looked at, each one before what stands in it. The first one in that list that is impure
at its root is what is found, and the cause that is given for it is true of it.
-/
import NoteCheck.Proofs.Purity.PureExpr

namespace NoteCheck.Code

namespace Expr

/-- The positions of an expression that are looked at, in the order in which they are. The targets
of comprehensions and the parameters of a lambda are not among them, and nothing is in a form that
has no place in the pure grammar. -/
def validated : Expr → List Expr
  | tuple _ elements | boolean _ _ elements => elements
  | call _ callee arguments keywords => callee :: (arguments ++ keywords.map Prod.snd)
  | member _ value _ | unary _ _ value => [value]
  | binary _ left _ right => [left, right]
  | comparison _ left links => left :: links.map Prod.snd
  | subscript _ value index => [value, index]
  | slice _ lower upper step => lower.toList ++ upper.toList ++ step.toList
  | listComprehension _ element clauses | generator _ element clauses =>
    element :: clauses.flatMap fun c => c.source :: c.filters
  | lambda _ _ body => [body]
  | _ => []

/-- What is looked at is a part. -/
theorem mem_parts_of_mem_validated {d e : Expr} (h : d ∈ e.validated) : d ∈ e.parts := by
  have hclauses (clauses : List (Clause Expr))
      (h : d ∈ clauses.flatMap fun c => c.source :: c.filters) :
      d ∈ clauses.flatMap Clause.parts := by
    obtain ⟨c, hc, hd⟩ := List.mem_flatMap.1 h
    exact List.mem_flatMap.2 ⟨c, hc, List.mem_cons_of_mem _ hd⟩
  cases e with
  | tuple | boolean | call | member | unary | binary | comparison | subscript | slice => exact h
  | lambda => exact List.mem_append_right _ h
  | listComprehension s element clauses | generator s element clauses =>
    obtain rfl | h := List.mem_cons.1 h
    · exact List.mem_cons_self
    · exact List.mem_cons_of_mem _ (hclauses clauses h)
  | _ => cases h

/-- The expressions that are looked at, each one before those in it. -/
def preorder (e : Expr) : List Expr :=
  e :: e.validated.attach.flatMap fun d => preorder d.1
termination_by sizeOf e
decreasing_by exact sizeOf_lt_of_mem_parts (mem_parts_of_mem_validated d.2)

/-- The listing of an expression begins with the expression, and the listings of what is looked at
follow. -/
theorem preorder_eq (e : Expr) : e.preorder = e :: e.validated.flatMap preorder := by
  rw [preorder, List.flatMap_subtype fun _ _ => rfl, List.unattach_attach]

/-- A form that has no place in the pure grammar. -/
def isForeign : Expr → Bool
  | formattedString .. | listDisplay .. | setDisplay .. | dictDisplay .. | conditional ..
  | setComprehension .. | dictComprehension .. | starred .. | named .. | await .. | yield ..
  | yieldFrom .. => true
  | _ => false

/-- An expression that is outside the pure grammar whatever stands in it. -/
def isImpureAtRoot : Expr → Bool
  | binary _ _ op _ => op ∉ [BinaryOp.add, .sub, .mult, .div]
  | listComprehension _ _ clauses | generator _ _ clauses => clauses.any Clause.isAsync
  | lambda _ parameters _ => parameters.any fun p => p.default.isSome || p.isVariadic
  | e => e.isForeign

end Expr

/-- What a cause says of an expression. -/
def Impurity.Explains : Impurity → Expr → Prop
  | .form description, e => e.isForeign ∧ e.describe = description
  | .operator op, .binary _ _ op' _ => op' = op ∧ op ∉ [BinaryOp.add, .sub, .mult, .div]
  | .asyncClause, .listComprehension _ _ clauses
  | .asyncClause, .generator _ _ clauses => ∃ c ∈ clauses, c.isAsync = true
  | .lambdaParameter, .lambda _ parameters _ =>
    ∃ p ∈ parameters, p.default ≠ none ∨ p.kind = .varArgs ∨ p.kind = .varKeyword
  | _, _ => False

namespace Expr

/-! ## Looking through lists -/

/-- Looking through a list is looking at its first expression, and then at the others. -/
theorem findSome?_cons_eq_orElse {α β : Type} (f : α → Option β) (a : α) (l : List α) :
    (a :: l).findSome? f = (f a <|> l.findSome? f) := by
  rw [List.findSome?_cons]
  cases f a <;> rfl

/-- In a list the members are looked at in order. -/
theorem firstImpureIn_eq_findSome? (es : List Expr) :
    firstImpureIn es = es.findSome? firstImpure := by
  induction es with
  | nil => rw [firstImpureIn, List.findSome?_nil]
  | cons e es ih => rw [firstImpureIn, findSome?_cons_eq_orElse, ih]

/-- A part that may be left out is looked at if it is there. -/
theorem firstImpureInOption_eq_findSome? (o : Option Expr) :
    firstImpureInOption o = o.toList.findSome? firstImpure := by
  cases o with
  | none => rw [firstImpureInOption, Option.toList_none, List.findSome?_nil]
  | some e => rw [firstImpureInOption, Option.toList_some, List.findSome?_singleton]

/-- In the links of a comparison what they compare is looked at in order. -/
theorem firstImpureInLinks_eq_findSome? (links : List (CompareOp × Expr)) :
    firstImpureInLinks links = (links.map Prod.snd).findSome? firstImpure := by
  induction links with
  | nil => rw [firstImpureInLinks, List.map_nil, List.findSome?_nil]
  | cons link links ih => rw [firstImpureInLinks, List.map_cons, findSome?_cons_eq_orElse, ih]

/-- In arguments by name the values are looked at in order. -/
theorem firstImpureInKeywords_eq_findSome? (keywords : List (Option String × Expr)) :
    firstImpureInKeywords keywords = (keywords.map Prod.snd).findSome? firstImpure := by
  induction keywords with
  | nil => rw [firstImpureInKeywords, List.map_nil, List.findSome?_nil]
  | cons keyword keywords ih =>
    rw [firstImpureInKeywords, List.map_cons, findSome?_cons_eq_orElse, ih]

/-- In clauses each source is looked at and then its filters. -/
theorem firstImpureInClauses_eq_findSome? (clauses : List (Clause Expr)) :
    firstImpureInClauses clauses =
      (clauses.flatMap fun c => c.source :: c.filters).findSome? firstImpure := by
  induction clauses with
  | nil => rw [firstImpureInClauses, List.flatMap_nil, List.findSome?_nil]
  | cons c clauses ih =>
    rw [firstImpureInClauses, List.flatMap_cons, List.cons_append, findSome?_cons_eq_orElse,
      List.findSome?_append, firstImpureIn_eq_findSome?, ih]
    simp only [Option.orElse_eq_orElse, Option.orElse_eq_or]

/-! ## One level -/

theorem isImpureAtRoot_binary {s : Span} {left right : Expr} {op : BinaryOp} :
    (binary s left op right).isImpureAtRoot = !op.isArithmetic := by
  cases op <;> rfl

theorem isImpureAtRoot_lambda {s : Span} {parameters : List (Parameter Expr)} {body : Expr} :
    (lambda s parameters body).isImpureAtRoot = !parameters.all Parameter.isPlain := by
  rw [isImpureAtRoot, List.not_all_eq_any_not]
  refine congrArg parameters.any (funext fun p => ?_)
  rw [Parameter.isPlain, Bool.not_and, Bool.not_not, Option.not_isNone]

/-- An expression is found if it is impure at its root, and otherwise what is found first in its
positions. -/
theorem firstImpure_eq_ite (e : Expr) : e.firstImpure =
    if e.isImpureAtRoot then some e else e.validated.findSome? firstImpure := by
  cases e with
  | name | constant => rw [firstImpure]; rfl
  | tuple s elements | boolean s _ elements => rw [firstImpure, firstImpureIn_eq_findSome?]; rfl
  | call s callee arguments keywords =>
    rw [firstImpure, firstImpureIn_eq_findSome?, firstImpureInKeywords_eq_findSome?, validated,
      findSome?_cons_eq_orElse, List.findSome?_append]
    simp [isImpureAtRoot, isForeign]
  | member | unary => rw [firstImpure, validated, List.findSome?_singleton]; rfl
  | binary s left op right =>
    rw [firstImpure, isImpureAtRoot_binary, validated, findSome?_cons_eq_orElse,
      List.findSome?_singleton]
    cases op.isArithmetic <;> rfl
  | comparison s left links =>
    rw [firstImpure, firstImpureInLinks_eq_findSome?, validated, findSome?_cons_eq_orElse]
    rfl
  | subscript s value index =>
    rw [firstImpure, validated, findSome?_cons_eq_orElse, List.findSome?_singleton]
    rfl
  | slice s lower upper step =>
    simp [firstImpure, firstImpureInOption_eq_findSome?, validated, isImpureAtRoot, isForeign]
  | lambda s parameters body =>
    rw [firstImpure, isImpureAtRoot_lambda, validated, List.findSome?_singleton]
    cases parameters.all Parameter.isPlain <;> rfl
  | listComprehension s element clauses | generator s element clauses =>
    rw [firstImpure, firstImpureInClauses_eq_findSome?, isImpureAtRoot, validated,
      findSome?_cons_eq_orElse]
  | _ => simp [firstImpure, isImpureAtRoot, isForeign]

/-- A search of the listing tries the expression and then searches what is looked at. -/
theorem find?_preorder (p : Expr → Bool) (e : Expr) : e.preorder.find? p =
    if p e then some e else e.validated.findSome? fun d => d.preorder.find? p := by
  rw [preorder_eq, List.find?_cons, List.find?_flatMap]
  cases p e <;> rfl

/-! ## The first impure part -/

/-- The impure part that is found is the first in the listing that is impure by itself. -/
theorem firstImpure_eq_find? (e : Expr) : e.firstImpure = e.preorder.find? isImpureAtRoot := by
  induction e using induction_parts with
  | step e ih =>
    have hparts : e.validated.map firstImpure =
        e.validated.map fun d => d.preorder.find? isImpureAtRoot :=
      List.map_congr_left fun d hd => ih d (mem_parts_of_mem_validated hd)
    rw [firstImpure_eq_ite, find?_preorder]
    refine congrArg (ite _ _) ?_
    simpa only [List.findSome?_map, Function.id_comp] using congrArg (List.findSome? id) hparts

/-- The reason that is given for an impure expression is true of it. -/
theorem explains_impurity {e : Expr} (h : e.isImpureAtRoot) : e.impurity.Explains e := by
  cases e with
  | binary s left op right => exact ⟨rfl, by simpa [isImpureAtRoot] using h⟩
  | listComprehension s element clauses | generator s element clauses =>
    exact List.any_eq_true.1 h
  | lambda s parameters body =>
    obtain ⟨p, hp, h⟩ := List.any_eq_true.1 h
    refine ⟨p, hp, ?_⟩
    rw [Bool.or_eq_true, Option.isSome_iff_ne_none, Parameter.isVariadic] at h
    refine h.imp id fun hkind => ?_
    split at hkind
    · exact .inl ‹_›
    · exact .inr ‹_›
    · cases hkind
  | _ => exact ⟨h, rfl⟩

/-- What is found in an expression is the first one of those that are looked at that is impure at
its root, and the cause that is given for it is true of it. -/
theorem firstImpure_eq_find_and_explains (e : Expr) :
    e.firstImpure = e.preorder.find? isImpureAtRoot ∧
      ∀ d, e.firstImpure = some d → d.impurity.Explains d := by
  refine ⟨firstImpure_eq_find? e, fun d hd => explains_impurity ?_⟩
  rw [firstImpure_eq_find?] at hd
  exact List.find?_some hd

end Expr

end NoteCheck.Code
