/-
# The pure grammar of values

The grammar of the values that may be assigned or returned, as rules, and the proof that looking
for the first impure part of a value decides it.
-/
import NoteCheck.Code.Purity
import NoteCheck.Proofs.Grammar.Parts
import Mathlib.Data.Option.Basic

namespace NoteCheck.Code

namespace Expr

/-- The pure grammar of values. The targets of comprehensions are left open. -/
inductive IsPure : Expr → Prop
  | name {s id} : IsPure (.name s id)
  | constant {s value} : IsPure (.constant s value)
  | tuple {s elements} : (∀ e ∈ elements, IsPure e) → IsPure (.tuple s elements)
  | call {s callee arguments keywords} : IsPure callee → (∀ e ∈ arguments, IsPure e) →
      (∀ keyword ∈ keywords, IsPure keyword.2) → IsPure (.call s callee arguments keywords)
  | member {s value attr} : IsPure value → IsPure (.member s value attr)
  | binary {s left op right} : op ∈ [.add, .sub, .mult, .div] → IsPure left → IsPure right →
      IsPure (.binary s left op right)
  | unary {s op operand} : IsPure operand → IsPure (.unary s op operand)
  | boolean {s op values} : (∀ e ∈ values, IsPure e) → IsPure (.boolean s op values)
  | comparison {s left links} : IsPure left → (∀ link ∈ links, IsPure link.2) →
      IsPure (.comparison s left links)
  | subscript {s value index} : IsPure value → IsPure index → IsPure (.subscript s value index)
  | slice {s lower upper step} : (∀ e ∈ lower, IsPure e) → (∀ e ∈ upper, IsPure e) →
      (∀ e ∈ step, IsPure e) → IsPure (.slice s lower upper step)
  | lambda {s parameters body} : (∀ p ∈ parameters, p.default = none) →
      (∀ p ∈ parameters, p.kind ≠ .varArgs ∧ p.kind ≠ .varKeyword) → IsPure body →
      IsPure (.lambda s parameters body)
  | listComprehension {s element clauses} : (∀ c ∈ clauses, c.isAsync = false) → IsPure element →
      (∀ c ∈ clauses, IsPure c.source) → (∀ c ∈ clauses, ∀ f ∈ c.filters, IsPure f) →
      IsPure (.listComprehension s element clauses)
  | generator {s element clauses} : (∀ c ∈ clauses, c.isAsync = false) → IsPure element →
      (∀ c ∈ clauses, IsPure c.source) → (∀ c ∈ clauses, ∀ f ∈ c.filters, IsPure f) →
      IsPure (.generator s element clauses)

/-! ## The rules, read backwards -/

section Inversion

variable {s : Span} {element : Expr} {clauses : List (Clause Expr)}

/-- A tuple is pure if its elements are. -/
theorem isPure_tuple {elements : List Expr} :
    IsPure (.tuple s elements) ↔ ∀ e ∈ elements, IsPure e :=
  ⟨fun | .tuple h => h, .tuple⟩

/-- A call is pure if what is called is and all its arguments are. -/
theorem isPure_call {callee : Expr} {arguments : List Expr}
    {keywords : List (Option String × Expr)} :
    IsPure (.call s callee arguments keywords) ↔
      IsPure callee ∧ (∀ e ∈ arguments, IsPure e) ∧ ∀ keyword ∈ keywords, IsPure keyword.2 :=
  ⟨fun | .call h h' h'' => ⟨h, h', h''⟩, fun ⟨h, h', h''⟩ => .call h h' h''⟩

/-- An attribute is pure if what it belongs to is. -/
theorem isPure_member {value : Expr} {attr : String} :
    IsPure (.member s value attr) ↔ IsPure value :=
  ⟨fun | .member h => h, .member⟩

/-- Of the operators between two operands only the four of arithmetic are pure. -/
theorem isPure_binary {left right : Expr} {op : BinaryOp} :
    IsPure (.binary s left op right) ↔
      op ∈ [.add, .sub, .mult, .div] ∧ IsPure left ∧ IsPure right :=
  ⟨fun | .binary h h' h'' => ⟨h, h', h''⟩, fun ⟨h, h', h''⟩ => .binary h h' h''⟩

/-- Every operator before a pure operand is pure. -/
theorem isPure_unary {op : UnaryOp} {operand : Expr} :
    IsPure (.unary s op operand) ↔ IsPure operand :=
  ⟨fun | .unary h => h, .unary⟩

/-- A chain of boolean operators is pure if its values are. -/
theorem isPure_boolean {op : BoolOp} {values : List Expr} :
    IsPure (.boolean s op values) ↔ ∀ e ∈ values, IsPure e :=
  ⟨fun | .boolean h => h, .boolean⟩

/-- A comparison is pure if all that it compares is. -/
theorem isPure_comparison {left : Expr} {links : List (CompareOp × Expr)} :
    IsPure (.comparison s left links) ↔ IsPure left ∧ ∀ link ∈ links, IsPure link.2 :=
  ⟨fun | .comparison h h' => ⟨h, h'⟩, fun ⟨h, h'⟩ => .comparison h h'⟩

/-- A subscript is pure if its value and its index are. -/
theorem isPure_subscript {value index : Expr} :
    IsPure (.subscript s value index) ↔ IsPure value ∧ IsPure index :=
  ⟨fun | .subscript h h' => ⟨h, h'⟩, fun ⟨h, h'⟩ => .subscript h h'⟩

/-- A slice is pure if those of its bounds are that are given. -/
theorem isPure_slice {lower upper step : Option Expr} :
    IsPure (.slice s lower upper step) ↔
      (∀ e ∈ lower, IsPure e) ∧ (∀ e ∈ upper, IsPure e) ∧ ∀ e ∈ step, IsPure e :=
  ⟨fun | .slice h h' h'' => ⟨h, h', h''⟩, fun ⟨h, h', h''⟩ => .slice h h' h''⟩

/-- A lambda is pure if its body is and its parameters are plain. -/
theorem isPure_lambda {parameters : List (Parameter Expr)} {body : Expr} :
    IsPure (.lambda s parameters body) ↔ (∀ p ∈ parameters, p.default = none) ∧
      (∀ p ∈ parameters, p.kind ≠ .varArgs ∧ p.kind ≠ .varKeyword) ∧ IsPure body :=
  ⟨fun | .lambda h h' h'' => ⟨h, h', h''⟩, fun ⟨h, h', h''⟩ => .lambda h h' h''⟩

/-- A comprehension is pure if its element, its sources and its filters are and nothing in it is
awaited. -/
theorem isPure_listComprehension :
    IsPure (.listComprehension s element clauses) ↔
      (∀ c ∈ clauses, c.isAsync = false) ∧ IsPure element ∧ (∀ c ∈ clauses, IsPure c.source) ∧
        ∀ c ∈ clauses, ∀ f ∈ c.filters, IsPure f :=
  ⟨fun | .listComprehension h h₁ h₂ h₃ => ⟨h, h₁, h₂, h₃⟩,
    fun ⟨h, h₁, h₂, h₃⟩ => .listComprehension h h₁ h₂ h₃⟩

/-- The rule for generators is that for comprehensions. -/
theorem isPure_generator :
    IsPure (.generator s element clauses) ↔
      (∀ c ∈ clauses, c.isAsync = false) ∧ IsPure element ∧ (∀ c ∈ clauses, IsPure c.source) ∧
        ∀ c ∈ clauses, ∀ f ∈ c.filters, IsPure f :=
  ⟨fun | .generator h h₁ h₂ h₃ => ⟨h, h₁, h₂, h₃⟩,
    fun ⟨h, h₁, h₂, h₃⟩ => .generator h h₁ h₂ h₃⟩

end Inversion

/-! ## Looking for an impure part -/

/-- Nothing is found in a list just if nothing is found in its members. -/
theorem firstImpureIn_eq_none_iff {es : List Expr} :
    firstImpureIn es = none ↔ ∀ e ∈ es, e.firstImpure = none := by
  induction es with
  | nil => simp [firstImpureIn]
  | cons e es ih => simp [firstImpureIn, ih]

/-- Nothing is found in a part just if it is left out or nothing is found in it. -/
theorem firstImpureInOption_eq_none_iff {o : Option Expr} :
    firstImpureInOption o = none ↔ ∀ e ∈ o, e.firstImpure = none := by
  cases o with
  | none => simp [firstImpureInOption]
  | some e => simp [firstImpureInOption]

/-- Nothing is found in the links of a comparison just if nothing is found in what they compare. -/
theorem firstImpureInLinks_eq_none_iff {links : List (CompareOp × Expr)} :
    firstImpureInLinks links = none ↔ ∀ link ∈ links, link.2.firstImpure = none := by
  induction links with
  | nil => simp [firstImpureInLinks]
  | cons link links ih => rw [firstImpureInLinks]; simp [ih]

/-- Nothing is found in arguments by name just if nothing is found in their values. -/
theorem firstImpureInKeywords_eq_none_iff {keywords : List (Option String × Expr)} :
    firstImpureInKeywords keywords = none ↔ ∀ keyword ∈ keywords, keyword.2.firstImpure = none := by
  induction keywords with
  | nil => simp [firstImpureInKeywords]
  | cons keyword keywords ih => rw [firstImpureInKeywords]; simp [ih]

/-- Nothing is found in clauses just if nothing is found in their sources and filters. Their targets
are not looked at. -/
theorem firstImpureInClauses_eq_none_iff {clauses : List (Clause Expr)} :
    firstImpureInClauses clauses = none ↔
      (∀ c ∈ clauses, c.source.firstImpure = none) ∧
        ∀ c ∈ clauses, ∀ f ∈ c.filters, f.firstImpure = none := by
  induction clauses with
  | nil => simp [firstImpureInClauses]
  | cons c clauses ih =>
    rw [firstImpureInClauses]
    simp only [Option.orElse_eq_none, ih, firstImpureIn_eq_none_iff, List.forall_mem_cons]
    tauto

/-- A plain parameter has no default and takes one argument. -/
theorem isPlain_iff {p : Parameter Expr} :
    p.isPlain ↔ p.default = none ∧ p.kind ≠ .varArgs ∧ p.kind ≠ .varKeyword := by
  rw [Parameter.isPlain, Parameter.isVariadic]
  cases p.kind <;> simp

/-- The operators of arithmetic are four. -/
theorem isArithmetic_iff {op : BinaryOp} : op.isArithmetic ↔ op ∈ [.add, .sub, .mult, .div] := by
  cases op <;> decide

/-- A comprehension that is looked at as a whole before its parts. -/
theorem comprehension_eq_none_iff {e element : Expr} {clauses : List (Clause Expr)} :
    (if clauses.any Clause.isAsync then some e
      else firstImpure element <|> firstImpureInClauses clauses) = none ↔
      (∀ c ∈ clauses, c.isAsync = false) ∧ element.firstImpure = none ∧
        (∀ c ∈ clauses, c.source.firstImpure = none) ∧
          ∀ c ∈ clauses, ∀ f ∈ c.filters, f.firstImpure = none := by
  by_cases hasync : clauses.any Clause.isAsync
  · rw [if_pos hasync]
    refine iff_of_false (Option.some_ne_none _) fun h => ?_
    obtain ⟨c, hc, hasync⟩ := List.any_eq_true.1 hasync
    rw [h.1 c hc] at hasync
    cases hasync
  · rw [if_neg hasync, Option.orElse_eq_none, firstImpureInClauses_eq_none_iff]
    refine (and_iff_right ?_).symm
    simpa using hasync

/-- If looking decides the parts of a comprehension, it decides the comprehension. -/
theorem comprehension_congr {element : Expr} {clauses : List (Clause Expr)}
    (ih : ∀ e ∈ element :: clauses.flatMap Clause.parts, e.firstImpure = none ↔ IsPure e) :
    ((∀ c ∈ clauses, c.isAsync = false) ∧ element.firstImpure = none ∧
        (∀ c ∈ clauses, c.source.firstImpure = none) ∧
          ∀ c ∈ clauses, ∀ f ∈ c.filters, f.firstImpure = none) ↔
      (∀ c ∈ clauses, c.isAsync = false) ∧ IsPure element ∧ (∀ c ∈ clauses, IsPure c.source) ∧
        ∀ c ∈ clauses, ∀ f ∈ c.filters, IsPure f := by
  have hclause {c e} (hc : c ∈ clauses) (he : e ∈ c.parts) : e.firstImpure = none ↔ IsPure e :=
    ih e (List.mem_cons_of_mem _ (List.mem_flatMap_of_mem hc he))
  refine and_congr_right fun _ => and_congr (ih element List.mem_cons_self) (and_congr ?_ ?_)
  · exact forall₂_congr fun c hc => hclause hc (by simp [Clause.parts])
  · exact forall₂_congr fun c hc => forall₂_congr fun f hf =>
      hclause hc (by simp [Clause.parts, hf])

/-- Nothing impure is found in a value exactly when the value is in the pure grammar. -/
theorem firstImpure_eq_none_iff (e : Expr) : e.firstImpure = none ↔ IsPure e := by
  induction e using induction_parts with
  | step e ih =>
  cases e with
  | name => exact iff_of_true (by rw [firstImpure]) .name
  | constant => exact iff_of_true (by rw [firstImpure]) .constant
  | tuple s elements =>
    rw [firstImpure, firstImpureIn_eq_none_iff, isPure_tuple]
    exact forall₂_congr ih
  | boolean s op values =>
    rw [firstImpure, firstImpureIn_eq_none_iff, isPure_boolean]
    exact forall₂_congr ih
  | call s callee arguments keywords =>
    rw [firstImpure, Option.orElse_eq_none, Option.orElse_eq_none, firstImpureIn_eq_none_iff,
      firstImpureInKeywords_eq_none_iff, isPure_call]
    refine and_congr (ih callee (by simp [parts])) (and_congr ?_ ?_)
    · exact forall₂_congr fun e he => ih e (by simp [parts, he])
    · exact forall₂_congr fun keyword hk => ih _ (by simp [parts, List.mem_map_of_mem hk])
  | member s value attr =>
    rw [firstImpure, isPure_member]
    exact ih value (List.mem_singleton_self _)
  | unary s op operand =>
    rw [firstImpure, isPure_unary]
    exact ih operand (List.mem_singleton_self _)
  -- an operator outside arithmetic is refused whatever its operands are
  | binary s left op right =>
    rw [firstImpure, isPure_binary, ← isArithmetic_iff]
    by_cases hop : op.isArithmetic
    · rw [if_pos hop, Option.orElse_eq_none, ih left (by simp [parts]), ih right (by simp [parts])]
      exact (and_iff_right hop).symm
    · rw [if_neg hop]
      exact iff_of_false (Option.some_ne_none _) fun h => hop h.1
  | comparison s left links =>
    rw [firstImpure, Option.orElse_eq_none, firstImpureInLinks_eq_none_iff, isPure_comparison]
    refine and_congr (ih left (by simp [parts])) ?_
    exact forall₂_congr fun link hl => ih _ (by simp [parts, List.mem_map_of_mem hl])
  | subscript s value index =>
    rw [firstImpure, Option.orElse_eq_none, isPure_subscript]
    exact and_congr (ih value (by simp [parts])) (ih index (by simp [parts]))
  | slice s lower upper step =>
    simp only [firstImpure, Option.orElse_eq_none, firstImpureInOption_eq_none_iff, isPure_slice]
    refine and_congr ?_ (and_congr ?_ ?_)
    all_goals exact forall₂_congr fun e he => ih e (by simp [parts, Option.mem_def.1 he])
  | lambda s parameters body =>
    rw [firstImpure, isPure_lambda]
    by_cases hplain : parameters.all Parameter.isPlain
    · rw [if_pos hplain, ih body (by simp [parts])]
      simp only [List.all_eq_true, isPlain_iff] at hplain
      exact ⟨fun h => ⟨fun p hp => (hplain p hp).1, fun p hp => (hplain p hp).2, h⟩,
        fun h => h.2.2⟩
    · rw [if_neg hplain]
      refine iff_of_false (Option.some_ne_none _) fun h => hplain ?_
      simp only [List.all_eq_true, isPlain_iff]
      exact fun p hp => ⟨h.1 p hp, h.2.1 p hp⟩
  | listComprehension s element clauses =>
    rw [firstImpure, isPure_listComprehension, comprehension_eq_none_iff]
    exact comprehension_congr ih
  | generator s element clauses =>
    rw [firstImpure, isPure_generator, comprehension_eq_none_iff]
    exact comprehension_congr ih
  -- forms outside the pure grammar, of which the node itself is what is found
  | formattedString | listDisplay | setDisplay | dictDisplay | conditional | setComprehension
  | dictComprehension | starred | named | await | yield | yieldFrom =>
    refine iff_of_false (by simp [firstImpure]) ?_
    intro h
    cases h

end Expr

end NoteCheck.Code
