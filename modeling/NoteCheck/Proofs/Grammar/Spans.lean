/-
# Statements with other spans

The same expressions and statements, with other parts of the text that they take. Two of them are
the same up to spans when they are the same once every span is replaced in the same way.
-/
import NoteCheck.Code.Stmt
import NoteCheck.Proofs.Grammar.Parts

namespace NoteCheck.Code

/-! ## Replacing spans -/

namespace Expr

mutual

/-- An expression with every span in it replaced. -/
def mapSpan (f : Span → Span) : Expr → Expr
  | name s id => name (f s) id
  | constant s value => constant (f s) value
  | formattedString s => formattedString (f s)
  | tuple s elements => tuple (f s) (mapSpanIn f elements)
  | listDisplay s elements => listDisplay (f s) (mapSpanIn f elements)
  | setDisplay s elements => setDisplay (f s) (mapSpanIn f elements)
  | dictDisplay s entries => dictDisplay (f s) (mapSpanInEntries f entries)
  | call s callee arguments keywords =>
    call (f s) (mapSpan f callee) (mapSpanIn f arguments) (mapSpanInKeywords f keywords)
  | member s value attr => member (f s) (mapSpan f value) attr
  | binary s left operator right =>
    binary (f s) (mapSpan f left) operator (mapSpan f right)
  | unary s operator operand => unary (f s) operator (mapSpan f operand)
  | boolean s operator values => boolean (f s) operator (mapSpanIn f values)
  | comparison s left links => comparison (f s) (mapSpan f left) (mapSpanInLinks f links)
  | subscript s value index => subscript (f s) (mapSpan f value) (mapSpan f index)
  | slice s lower upper step =>
    slice (f s) (mapSpanInOption f lower) (mapSpanInOption f upper) (mapSpanInOption f step)
  | conditional s test body orelse =>
    conditional (f s) (mapSpan f test) (mapSpan f body) (mapSpan f orelse)
  | lambda s parameters body =>
    lambda (f s) (mapSpanInParameters f parameters) (mapSpan f body)
  | listComprehension s element clauses =>
    listComprehension (f s) (mapSpan f element) (mapSpanInClauses f clauses)
  | generator s element clauses =>
    generator (f s) (mapSpan f element) (mapSpanInClauses f clauses)
  | setComprehension s element clauses =>
    setComprehension (f s) (mapSpan f element) (mapSpanInClauses f clauses)
  | dictComprehension s key value clauses =>
    dictComprehension (f s) (mapSpan f key) (mapSpan f value) (mapSpanInClauses f clauses)
  | starred s value => starred (f s) (mapSpan f value)
  | named s target value => named (f s) (mapSpan f target) (mapSpan f value)
  | await s value => await (f s) (mapSpan f value)
  | yield s value => yield (f s) (mapSpanInOption f value)
  | yieldFrom s value => yieldFrom (f s) (mapSpan f value)

/-- The same in expressions side by side. -/
def mapSpanIn (f : Span → Span) : List Expr → List Expr
  | [] => []
  | e :: rest => mapSpan f e :: mapSpanIn f rest

/-- The same in an expression that may be missing. -/
def mapSpanInOption (f : Span → Span) : Option Expr → Option Expr
  | none => none
  | some e => some (mapSpan f e)

/-- The same in the entries of a dict. -/
def mapSpanInEntries (f : Span → Span) : List (Option Expr × Expr) → List (Option Expr × Expr)
  | [] => []
  | (key, value) :: rest =>
    (mapSpanInOption f key, mapSpan f value) :: mapSpanInEntries f rest

/-- The same in the values of keyword arguments. -/
def mapSpanInKeywords (f : Span → Span) :
    List (Option String × Expr) → List (Option String × Expr)
  | [] => []
  | (word, e) :: rest => (word, mapSpan f e) :: mapSpanInKeywords f rest

/-- The same in the operands of comparisons. -/
def mapSpanInLinks (f : Span → Span) : List (CompareOp × Expr) → List (CompareOp × Expr)
  | [] => []
  | (operator, e) :: rest => (operator, mapSpan f e) :: mapSpanInLinks f rest

/-- The same in the annotations and defaults of parameters. -/
def mapSpanInParameters (f : Span → Span) : List (Parameter Expr) → List (Parameter Expr)
  | [] => []
  | ⟨word, kind, annotation, default⟩ :: rest =>
    ⟨word, kind, mapSpanInOption f annotation, mapSpanInOption f default⟩ ::
      mapSpanInParameters f rest

/-- The same in clauses. -/
def mapSpanInClauses (f : Span → Span) : List (Clause Expr) → List (Clause Expr)
  | [] => []
  | ⟨target, source, filters, isAsync⟩ :: rest =>
    ⟨mapSpan f target, mapSpan f source, mapSpanIn f filters, isAsync⟩ ::
      mapSpanInClauses f rest

end

end Expr

/-- A parameter with every span in it replaced. -/
def Parameter.mapSpan (f : Span → Span) (p : Parameter Expr) : Parameter Expr :=
  ⟨p.name, p.kind, (Parameter.annotation p).map (Expr.mapSpan f), p.default.map (Expr.mapSpan f)⟩

/-- A clause with every span in it replaced. -/
def Clause.mapSpan (f : Span → Span) (c : Clause Expr) : Clause Expr :=
  ⟨c.target.mapSpan f, c.source.mapSpan f, c.filters.map (Expr.mapSpan f), c.isAsync⟩

namespace Expr

variable (f : Span → Span)

@[simp] theorem mapSpanIn_eq_map (es : List Expr) : mapSpanIn f es = es.map (mapSpan f) := by
  induction es with
  | nil => rfl
  | cons e es ih => rw [mapSpanIn, ih, List.map_cons]

@[simp] theorem mapSpanInOption_eq_map (o : Option Expr) :
    mapSpanInOption f o = o.map (mapSpan f) := by
  cases o <;> rfl

@[simp] theorem mapSpanInEntries_eq_map (entries : List (Option Expr × Expr)) :
    mapSpanInEntries f entries =
      entries.map (Prod.map (Option.map (mapSpan f)) (mapSpan f)) := by
  induction entries with
  | nil => rfl
  | cons entry entries ih => rw [mapSpanInEntries, ih, mapSpanInOption_eq_map]; rfl

@[simp] theorem mapSpanInKeywords_eq_map (keywords : List (Option String × Expr)) :
    mapSpanInKeywords f keywords = keywords.map (Prod.map id (mapSpan f)) := by
  induction keywords with
  | nil => rfl
  | cons keyword keywords ih => rw [mapSpanInKeywords, ih]; rfl

@[simp] theorem mapSpanInLinks_eq_map (links : List (CompareOp × Expr)) :
    mapSpanInLinks f links = links.map (Prod.map id (mapSpan f)) := by
  induction links with
  | nil => rfl
  | cons link links ih => rw [mapSpanInLinks, ih]; rfl

@[simp] theorem mapSpanInParameters_eq_map (parameters : List (Parameter Expr)) :
    mapSpanInParameters f parameters = parameters.map (Parameter.mapSpan f) := by
  induction parameters with
  | nil => rfl
  | cons p parameters ih =>
    rw [mapSpanInParameters, ih, mapSpanInOption_eq_map, mapSpanInOption_eq_map]
    rfl

@[simp] theorem mapSpanInClauses_eq_map (clauses : List (Clause Expr)) :
    mapSpanInClauses f clauses = clauses.map (Clause.mapSpan f) := by
  induction clauses with
  | nil => rfl
  | cons c clauses ih => rw [mapSpanInClauses, ih, mapSpanIn_eq_map]; rfl

attribute [simp] mapSpan

@[simp] theorem span_mapSpan (e : Expr) : (e.mapSpan f).span = f e.span := by
  cases e <;> rfl

@[simp] theorem isName_mapSpan (e : Expr) : (e.mapSpan f).isName = e.isName := by
  cases e <;> rfl

@[simp] theorem describe_mapSpan (e : Expr) : (e.mapSpan f).describe = e.describe := by
  cases e <;> rfl

/-- Replacing spans twice is replacing them once. -/
@[simp] theorem mapSpan_mapSpan (g : Span → Span) (e : Expr) :
    (e.mapSpan f).mapSpan g = e.mapSpan (g ∘ f) := by
  induction e using induction_parts with
  | step e ih =>
    -- the three carriers of parts that are not plain lists
    have hoption {o : Option Expr} (ho : ∀ d ∈ o, (d.mapSpan f).mapSpan g = d.mapSpan (g ∘ f)) :
        (o.map (mapSpan f)).map (mapSpan g) = o.map (mapSpan (g ∘ f)) := by
      cases o with
      | none => rfl
      | some d => exact congrArg some (ho d rfl)
    have hparameter {p : Parameter Expr}
        (hp : ∀ d ∈ p.parts, (d.mapSpan f).mapSpan g = d.mapSpan (g ∘ f)) :
        (p.mapSpan f).mapSpan g = p.mapSpan (g ∘ f) := by
      rw [Parameter.mapSpan, Parameter.mapSpan, Parameter.mapSpan,
        hoption fun d hd => hp d (List.mem_append_left _ (Option.mem_toList.2 hd)),
        hoption fun d hd => hp d (List.mem_append_right _ (Option.mem_toList.2 hd))]
    have hclause {c : Clause Expr}
        (hc : ∀ d ∈ c.parts, (d.mapSpan f).mapSpan g = d.mapSpan (g ∘ f)) :
        (c.mapSpan f).mapSpan g = c.mapSpan (g ∘ f) := by
      simp only [Clause.parts, List.forall_mem_cons] at hc
      simp only [Clause.mapSpan, hc.1, hc.2.1, List.map_map, Clause.mk.injEq, true_and, and_true]
      exact List.map_congr_left hc.2.2
    cases e with
    | name | constant | formattedString => rfl
    | tuple _ elements | listDisplay _ elements | setDisplay _ elements | boolean _ _ elements =>
      simpa [parts] using ih
    | dictDisplay _ entries =>
      simp only [mapSpan, mapSpanInEntries_eq_map, List.map_map, dictDisplay.injEq,
        Function.comp_apply, true_and]
      refine List.map_congr_left fun entry hentry => ?_
      have hparts {d : Expr} (hd : d ∈ entry.1.toList ++ [entry.2]) :=
        ih d (List.mem_flatMap.2 ⟨entry, hentry, hd⟩)
      refine Prod.ext (hoption fun d hd => ?_) ?_
      · exact hparts (List.mem_append_left _ (Option.mem_toList.2 hd))
      · exact hparts (List.mem_append_right _ (List.mem_singleton_self _))
    | call _ callee arguments keywords =>
      simp only [parts, List.forall_mem_cons, List.forall_mem_append, List.forall_mem_map] at ih
      simp only [mapSpan, mapSpanIn_eq_map, mapSpanInKeywords_eq_map, List.map_map, call.injEq,
        Function.comp_apply, true_and]
      refine ⟨ih.1, List.map_congr_left ih.2.1, List.map_congr_left fun keyword hkeyword => ?_⟩
      exact Prod.ext rfl (ih.2.2 keyword hkeyword)
    | comparison _ left links =>
      simp only [parts, List.forall_mem_cons, List.forall_mem_map] at ih
      simp only [mapSpan, mapSpanInLinks_eq_map, List.map_map, comparison.injEq,
        Function.comp_apply, true_and]
      refine ⟨ih.1, List.map_congr_left fun link hlink => ?_⟩
      exact Prod.ext rfl (ih.2 link hlink)
    | slice _ lower upper step =>
      simp only [parts, List.forall_mem_append, Option.mem_toList] at ih
      simp only [mapSpan, mapSpanInOption_eq_map, slice.injEq, Function.comp_apply, true_and]
      exact ⟨hoption ih.1.1, hoption ih.1.2, hoption ih.2⟩
    | yield _ value =>
      simp only [parts, Option.mem_toList] at ih
      simp only [mapSpan, mapSpanInOption_eq_map, yield.injEq, Function.comp_apply, true_and]
      exact hoption ih
    | lambda _ parameters body =>
      simp only [parts, List.forall_mem_append, List.forall_mem_singleton] at ih
      simp only [mapSpan, mapSpanInParameters_eq_map, List.map_map, lambda.injEq,
        Function.comp_apply, true_and]
      refine ⟨List.map_congr_left fun p hp => hparameter fun d hd => ?_, ih.2⟩
      exact ih.1 d (List.mem_flatMap.2 ⟨p, hp, hd⟩)
    | listComprehension _ element clauses | generator _ element clauses
    | setComprehension _ element clauses =>
      simp only [parts, List.forall_mem_cons] at ih
      simp only [mapSpan, mapSpanInClauses_eq_map, List.map_map, listComprehension.injEq,
        generator.injEq, setComprehension.injEq, Function.comp_apply, true_and]
      refine ⟨ih.1, List.map_congr_left fun c hc => hclause fun d hd => ?_⟩
      exact ih.2 d (List.mem_flatMap.2 ⟨c, hc, hd⟩)
    | dictComprehension _ key value clauses =>
      simp only [parts, List.forall_mem_cons] at ih
      simp only [mapSpan, mapSpanInClauses_eq_map, List.map_map, dictComprehension.injEq,
        Function.comp_apply, true_and]
      refine ⟨ih.1, ih.2.1, List.map_congr_left fun c hc => hclause fun d hd => ?_⟩
      exact ih.2.2 d (List.mem_flatMap.2 ⟨c, hc, hd⟩)
    | _ => simpa [parts] using ih

end Expr

/-- Replacing the spans in a parameter twice is replacing them once. -/
@[simp] theorem Parameter.mapSpan_mapSpan (f g : Span → Span) (p : Parameter Expr) :
    (p.mapSpan f).mapSpan g = p.mapSpan (g ∘ f) := by
  simp [mapSpan, Function.comp_def]

namespace Stmt

mutual

/-- A statement with every span in it replaced. -/
def mapSpan (f : Span → Span) : Stmt → Stmt
  | function s name parameters returns decorators isAsync body =>
    function (f s) name (parameters.map (Parameter.mapSpan f)) (returns.map (Expr.mapSpan f))
      (decorators.map (Expr.mapSpan f)) isAsync (mapSpanIn f body)
  | assign s targets value => assign (f s) (targets.map (Expr.mapSpan f)) (value.mapSpan f)
  | augmentedAssign s target operator value =>
    augmentedAssign (f s) (target.mapSpan f) operator (value.mapSpan f)
  | annotatedAssign s target type value =>
    annotatedAssign (f s) (target.mapSpan f) (type.mapSpan f) (value.map (Expr.mapSpan f))
  | ret s value => ret (f s) (value.map (Expr.mapSpan f))
  | branch s test body orelse =>
    branch (f s) (test.mapSpan f) (mapSpanIn f body) (mapSpanIn f orelse)
  | expression s value => expression (f s) (value.mapSpan f)
  | skipped s form => skipped (f s) form

/-- The same in statements one after the other. -/
def mapSpanIn (f : Span → Span) : List Stmt → List Stmt
  | [] => []
  | s :: rest => mapSpan f s :: mapSpanIn f rest

end

variable (f : Span → Span)

@[simp] theorem mapSpanIn_eq_map (body : List Stmt) : mapSpanIn f body = body.map (mapSpan f) := by
  induction body with
  | nil => rfl
  | cons s body ih => rw [mapSpanIn, ih, List.map_cons]

attribute [simp] mapSpan

@[simp] theorem span_mapSpan (s : Stmt) : (s.mapSpan f).span = f s.span := by
  cases s <;> rfl

@[simp] theorem describe_mapSpan (s : Stmt) : (s.mapSpan f).describe = s.describe := by
  cases s with
  | function _ _ _ _ _ isAsync => cases isAsync <;> rfl
  | _ => rfl

mutual

/-- Replacing spans twice is replacing them once. -/
theorem mapSpan_mapSpan (g : Span → Span) : ∀ s : Stmt,
    (s.mapSpan f).mapSpan g = s.mapSpan (g ∘ f)
  | function _ _ _ _ _ _ body => by
    have hbody := mapSpanIn_mapSpanIn g body
    simp_all [Function.comp_def]
  | branch _ _ body orelse => by
    have hbody := mapSpanIn_mapSpanIn g body
    have horelse := mapSpanIn_mapSpanIn g orelse
    simp_all [Function.comp_def]
  | assign .. | augmentedAssign .. | annotatedAssign .. | ret .. | expression .. | skipped .. => by
    simp [Function.comp_def]

/-- The same in statements one after the other. -/
theorem mapSpanIn_mapSpanIn (g : Span → Span) : ∀ body : List Stmt,
    mapSpanIn g (mapSpanIn f body) = mapSpanIn (g ∘ f) body
  | [] => rfl
  | s :: body => congrArg₂ List.cons (mapSpan_mapSpan g s) (mapSpanIn_mapSpanIn g body)

end

end Stmt

end NoteCheck.Code
