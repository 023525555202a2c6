/-
# The shape of expressions

What the type of expressions leaves open and reading settles: which lists are not empty, what can
be assigned to inside an expression, where slices stand, and what a parameter is called. The main
statement, `ReadsExpr.wellFormed`, is one induction over the rules; only the names of parameters
depend on the tokens.
-/
import NoteCheck.Proofs.Grammar.Onward
import NoteCheck.Proofs.Grammar.Parts

namespace NoteCheck.Code

/-! ## Well-formed expressions -/

/-- Where an expression stands: in the brackets of a subscript, as an element of a tuple that
stands there, or anywhere else. -/
inductive Slot where
  | index | indexElement | plain
  deriving DecidableEq, Repr

/-- A bare mark among the parameters. -/
def ParameterKind.isMarker : ParameterKind → Bool
  | .keywordOnlyMarker | .positionalOnlyMarker => true
  | _ => false

/-- The bare marks are the parameters without a name. -/
def Parameter.IsNamed (p : Parameter Expr) : Prop := p.name = "" ↔ p.kind.isMarker

namespace Expr

/-- The expressions directly inside an expression at a place, each with the place at which it
stands. -/
def slots (p : Slot) : Expr → List (Slot × Expr)
  | subscript _ value index => [(.plain, value), (.index, index)]
  | tuple _ elements =>
    elements.map fun d => (if p = .index then .indexElement else .plain, d)
  | e => e.parts.map fun d => (.plain, d)

/-- An operation that joins conditions by the given operator. -/
def isBoolean (op : BoolOp) : Expr → Bool
  | boolean _ operator _ => operator = op
  | _ => false

/-- The form of an expression at a place, apart from the expressions inside it. -/
def IsShaped (p : Slot) : Expr → Prop
  | comparison _ _ links => links ≠ []
  | boolean _ op values => 2 ≤ values.length ∧ ∀ first ∈ values.head?, ¬first.isBoolean op
  | listComprehension _ _ clauses | generator _ _ clauses | setComprehension _ _ clauses
  | dictComprehension _ _ _ clauses => clauses ≠ []
  | named _ target _ => target.isName
  | slice .. => p ≠ .plain
  | setDisplay _ elements => elements ≠ []
  | lambda _ parameters _ =>
    ∀ q ∈ parameters, Parameter.annotation q = none ∧ Parameter.IsNamed q
  | _ => True

/-- At every depth an expression at a place has its form. -/
inductive WellFormed : Slot → Expr → Prop
  | intro {p e} : e.IsShaped p → (∀ part ∈ e.slots p, WellFormed part.1 part.2) → WellFormed p e

section WellFormed

variable {p : Slot} {e : Expr}

/-- The places are those of all parts. -/
theorem map_snd_slots (p : Slot) (e : Expr) : (e.slots p).map Prod.snd = e.parts := by
  have hsnd (place : Slot) (ds : List Expr) : (ds.map fun d => (place, d)).map Prod.snd = ds := by
    rw [List.map_map]
    exact List.map_id ds
  cases e with
  | subscript => rfl
  | _ => exact hsnd ..

/-- A well-formed expression has its form at the top. -/
theorem WellFormed.isShaped (h : e.WellFormed p) : e.IsShaped p := by
  cases h with
  | intro hshape => exact hshape

/-- A form that is allowed anywhere is allowed at every place. -/
theorem IsShaped.of_plain (h : e.IsShaped .plain) : e.IsShaped p := by
  cases e with
  | slice => exact absurd rfl h
  | _ => exact h

/-- What can stand anywhere can be an element of an index. -/
theorem WellFormed.element (h : e.WellFormed .plain) : e.WellFormed .indexElement := by
  cases h with
  | intro hshape hparts =>
    refine .intro hshape.of_plain ?_
    cases e <;> exact hparts

/-- What can be an element of an index can be an index. -/
theorem WellFormed.index (h : e.WellFormed .indexElement) : e.WellFormed .index := by
  cases h with
  | intro hshape hparts =>
    cases e with
    | tuple s elements =>
      refine .intro trivial ?_
      simp only [slots, List.forall_mem_map] at hparts ⊢
      exact fun d hd => (hparts d hd).element
    | slice => exact .intro (by exact nofun) hparts
    | _ => exact .intro hshape hparts

/-- What can stand anywhere can stand at every place. -/
theorem WellFormed.of_plain (h : e.WellFormed .plain) : e.WellFormed p := by
  cases p with
  | index => exact h.element.index
  | indexElement => exact h.element
  | plain => exact h

/-- An expression whose parts can stand anywhere is well-formed if it has its form. -/
theorem WellFormed.of_parts (hshape : e.IsShaped p) (hparts : ∀ d ∈ e.parts, d.WellFormed .plain) :
    e.WellFormed p := by
  refine .intro hshape fun part hpart => WellFormed.of_plain (hparts part.2 ?_)
  rw [← map_snd_slots p e]
  exact List.mem_map_of_mem hpart

/-- The parts of what can stand anywhere can stand anywhere, but for the index of a subscript. -/
theorem WellFormed.of_mem_parts (h : e.WellFormed .plain) {d : Expr} (hd : d ∈ e.parts)
    (hsubscript : ∀ s value index, e ≠ .subscript s value index) : d.WellFormed .plain := by
  cases h with
  | intro _ hparts =>
    cases e with
    | subscript s value index => exact absurd rfl (hsubscript s value index)
    | tuple s elements => exact hparts (.plain, d) (List.mem_map_of_mem hd)
    | _ => exact hparts (.plain, d) (List.mem_map_of_mem hd)

end WellFormed

end Expr

/-! ## Lambdas -/

namespace Expr

/-- The parameters of a lambda. -/
def lambdaParameters : Expr → List (Parameter Expr)
  | lambda _ parameters _ => parameters
  | _ => []

/-- No lambda in an expression has a parameter with an annotation. -/
inductive Unannotated : Expr → Prop
  | mk {e} : (∀ p ∈ e.lambdaParameters, Parameter.annotation p = none) →
      (∀ d ∈ e.parts, Unannotated d) →
      Unannotated e

/-- A well-formed expression has no annotations. -/
theorem WellFormed.unannotated {p : Slot} {e : Expr} (h : e.WellFormed p) : e.Unannotated := by
  induction h with
  | @intro p e hshape _ ih =>
    refine .mk ?_ ?_
    · cases e with
      | lambda s parameters body => exact fun q hq => (hshape q hq).1
      | _ => exact List.forall_mem_nil _
    · rw [← map_snd_slots p e, List.forall_mem_map]
      exact ih

end Expr

open NoteCheck.Code.Expr (WellFormed IsShaped)

/-! ## What is read -/

/-- What holds of a part that is read, given that it holds of what stood there before. -/
def ExprPart.WellFormed : ExprPart → Prop
  | .expr _ e | .exprList _ e | .opening e | .filter e => e.WellFormed .plain
  | .chain _ left e | .continuation left e => left.WellFormed .plain → e.WellFormed .plain
  | .literal _ | .compareOp _ => True
  | .parameterName name kind => name = "" ↔ kind.isMarker
  | .after _ e | .sliceBound e => ∀ d ∈ e, d.WellFormed .plain
  | .parameter annotations p =>
    (∀ d ∈ p.parts, d.WellFormed .plain) ∧ p.IsNamed ∧
      (annotations = false → Parameter.annotation p = none)
  | .clause c => ∀ d ∈ c.parts, d.WellFormed .plain
  | .dictEntry entry => ∀ d ∈ entry.1.toList ++ [entry.2], d.WellFormed .plain
  | .link l => l.2.WellFormed .plain
  | .argument (.inl e) => e.WellFormed .plain
  | .argument (.inr keyword) => keyword.2.WellFormed .plain
  | .slice lower e => (∀ d ∈ lower, d.WellFormed .plain) → e.WellFormed .indexElement
  | .subscriptItem e => e.WellFormed .indexElement

/-- What holds of all parts of a phrase. -/
def Phrase.WellFormed : Phrase ExprPart → Prop
  | .one part => part.WellFormed
  | .many _ parts | .afterCommas _ parts | .untilClosed _ parts =>
    ∀ part ∈ parts, part.WellFormed

section Parts

variable {clauses : List (Clause Expr)} {more : TokenStream → Bool}

/-- Of a part that is left out there is nothing to show. -/
theorem forall_mem_none {p : Expr → Prop} : ∀ e ∈ (none : Option Expr), p e := nofun

/-- What is read as parts of one kind has the shape that those parts have. -/
theorem wellFormed_of_map {α : Type} {f : α → ExprPart} {as : List α}
    (h : ∀ part ∈ as.map f, part.WellFormed) : ∀ a ∈ as, (f a).WellFormed :=
  List.forall_mem_map.1 h

/-- The expressions of well-formed clauses are well-formed. -/
theorem wellFormed_of_clauses (h : ∀ part ∈ clauses.map ExprPart.clause, part.WellFormed) :
    ∀ d ∈ clauses.flatMap Clause.parts, d.WellFormed .plain :=
  List.forall_mem_flatMap.2 (wellFormed_of_map h)

/-- The keys and values of well-formed entries are well-formed. -/
theorem wellFormed_of_entries {entries : List (Option Expr × Expr)}
    (h : ∀ part ∈ entries.map ExprPart.dictEntry, part.WellFormed) :
    ∀ d ∈ entries.flatMap (fun entry => entry.1.toList ++ [entry.2]), d.WellFormed .plain :=
  List.forall_mem_flatMap.2 (wellFormed_of_map h)

/-- The values of well-formed arguments are well-formed, with a name and without. -/
theorem wellFormed_of_arguments {arguments : List (Expr ⊕ Option String × Expr)}
    (h : ∀ part ∈ arguments.map ExprPart.argument, part.WellFormed) :
    (∀ d ∈ arguments.filterMap Sum.getLeft?, d.WellFormed .plain) ∧
      ∀ d ∈ (arguments.filterMap Sum.getRight?).map Prod.snd, d.WellFormed .plain := by
  constructor
  · intro d hd
    obtain ⟨a, ha, hleft⟩ := List.mem_filterMap.1 hd
    obtain rfl := Sum.getLeft?_eq_some_iff.1 hleft
    exact wellFormed_of_map h _ ha
  · rw [List.forall_mem_map]
    intro keyword hkeyword
    obtain ⟨a, ha, hright⟩ := List.mem_filterMap.1 hkeyword
    obtain rfl := Sum.getRight?_eq_some_iff.1 hright
    exact wellFormed_of_map h _ ha

/-- Where items can be read and some are read, there is one. -/
theorem ne_nil_of_readsMany {α : Type} {f : α → ExprPart} {as : List α} {s t : TokenStream}
    (hmore : more s = true) (h : ReadsExpr s (.many more (as.map f)) t) : as ≠ [] := by
  rintro rfl
  cases h with
  | manyDone hdone => exact absurd (hmore.symm.trans hdone) (by decide)

/-- The values that an operator joins: those of the expression before it, if that is joined by the
same operator, and the expression after it. -/
theorem wellFormed_joined {s : Span} {op : BoolOp} {left right : Expr}
    (hleft : left.WellFormed .plain) (hright : right.WellFormed .plain) :
    (Expr.boolean s op (Parse.joined op left right)).WellFormed .plain := by
  have hpair (hne : ¬left.isBoolean op) : (Expr.boolean s op [left, right]).WellFormed .plain := by
    refine .of_parts ⟨by simp, ?_⟩ ?_
    · rintro _ ⟨⟩
      exact hne
    · exact List.forall_mem_cons.2 ⟨hleft, List.forall_mem_singleton.2 hright⟩
  unfold Parse.joined
  split
  · rename_i s' previous values
    split
    · rename_i hop
      obtain ⟨hlength, hfirst⟩ := hleft.isShaped
      refine .of_parts ⟨by rw [List.length_append]; omega, ?_⟩ ?_
      · rw [List.head?_append_of_ne_nil values (by rintro rfl; simp at hlength)]
        rwa [← hop]
      · refine List.forall_mem_append.2 ⟨fun d hd => hleft.of_mem_parts hd nofun, ?_⟩
        exact List.forall_mem_singleton.2 hright
    · rename_i hop
      exact hpair (by simpa [Expr.isBoolean] using hop)
  · rename_i hne
    refine hpair fun hbool => ?_
    cases left with
    | boolean s' op' values => exact hne s' op' values rfl
    | _ => cases hbool

end Parts

/-- All names in a stream have letters. -/
def TokenStream.IsNamed (s : TokenStream) : Prop :=
  ∀ a ∈ s.tokens, a.kind = .identifier → a.text ≠ ""

namespace TokenStream.IsNamed

variable {s t : TokenStream}

/-- The names that are ahead of a later stream have a text. -/
theorem onward (hs : s.IsNamed) (h : s.Onward t) : t.IsNamed :=
  fun a ha => hs a (h.suffix.subset ha)

/-- The names after the current token have a text. -/
theorem tail (hs : s.IsNamed) : s.tail.IsNamed := hs.onward .single

/-- A name has a text. -/
theorem text (hs : s.IsNamed) (hkind : s.kind = .identifier) : s.current.text ≠ "" :=
  hs s.current List.mem_cons_self hkind

end TokenStream.IsNamed

/-- Every expression that is read is well-formed. -/
theorem ReadsExpr.wellFormed {s t : TokenStream} {phrase : Phrase ExprPart}
    (h : ReadsExpr s phrase t) : s.IsNamed → phrase.WellFormed := by
  induction h with
  | expr h _ ih ih' => exact fun hs => ih' (hs.onward h.onward) (ih hs)
  | chainEnd => exact fun _ => id
  | chainNext _ h _ ih ih' => exact fun hs hleft => ih' (hs.onward h.onward) (ih hs hleft)
  | single _ _ ih | argument _ _ _ ih => exact ih
  | group _ _ _ ih | filter _ _ ih | unpackedArgument _ _ ih => exact fun hs => ih hs.tail
  | keywordArgument _ _ ih => exact fun hs => ih hs.tail.tail
  | subscriptItem _ _ ih => exact fun hs => (ih hs).element
  | bareTuple h _ _ ih ih' =>
    exact fun hs => .of_parts trivial
      (List.forall_mem_cons.2 ⟨ih hs, wellFormed_of_map (ih' (hs.onward h.onward))⟩)
  | tuple _ h _ _ _ ih ih' | listDisplay _ h _ _ ih ih' =>
    exact fun hs => .of_parts trivial
      (List.forall_mem_cons.2 ⟨ih hs.tail, wellFormed_of_map (ih' (hs.tail.onward h.onward))⟩)
  | setDisplay _ h _ _ ih ih' =>
    exact fun hs => .of_parts (List.cons_ne_nil _ _)
      (List.forall_mem_cons.2 ⟨ih hs.tail, wellFormed_of_map (ih' (hs.tail.onward h.onward))⟩)
  | name | number | constant | unit | emptyList | emptyDict | yieldNothing =>
    exact fun _ => .of_parts trivial (List.forall_mem_nil _)
  -- literals side by side are one constant, or one formatted string
  | strings =>
    intro _
    rw [Phrase.WellFormed, ExprPart.WellFormed, Expr.ofLiterals]
    split
    · exact .of_parts trivial (List.forall_mem_nil _)
    · exact .of_parts trivial (List.forall_mem_nil _)
  | unary _ _ ih | starred _ _ ih | await _ _ ih | yieldValue _ _ _ ih =>
    exact fun hs => .of_parts trivial (List.forall_mem_singleton.2 (ih hs.tail))
  | yieldFrom _ _ _ ih =>
    exact fun hs => .of_parts trivial (List.forall_mem_singleton.2 (ih hs.tail.tail))
  | lambda _ h _ _ ih ih' =>
    intro hs
    have hparameters := wellFormed_of_map (ih hs.tail)
    refine .of_parts (fun p hp => ⟨(hparameters p hp).2.2 rfl, (hparameters p hp).2.1⟩) ?_
    rw [Expr.parts, List.forall_mem_append, List.forall_mem_flatMap]
    exact ⟨fun p hp => (hparameters p hp).1,
      List.forall_mem_singleton.2 (ih' (hs.tail.onward h.onward.next))⟩
  | generator _ h hat hclauses _ ih ih' | listComprehension _ h hat hclauses _ ih ih'
  | setComprehension _ h hat hclauses _ ih ih' =>
    intro hs
    have hall := wellFormed_of_clauses (ih' (hs.tail.onward h.onward))
    exact .of_parts (ne_nil_of_readsMany hat hclauses) (List.forall_mem_cons.2 ⟨ih hs.tail, hall⟩)
  | unpackedDict _ _ _ _ ih =>
    exact fun hs => .of_parts trivial (wellFormed_of_entries (ih hs.tail))
  | dictDisplay _ h _ h' _ _ ih ih' ih'' =>
    intro hs
    have ht := hs.tail.onward h.onward.next
    have hentries := wellFormed_of_entries (ih'' (ht.onward (h'.onward.trans (.skip _))))
    exact .of_parts trivial
      (List.forall_mem_cons.2 ⟨ih hs.tail, List.forall_mem_cons.2 ⟨ih' ht, hentries⟩⟩)
  | dictComprehension _ h _ h' hat hclauses _ ih ih' ih'' =>
    intro hs
    have ht := hs.tail.onward h.onward.next
    have hall := wellFormed_of_clauses (ih'' (ht.onward h'.onward))
    exact .of_parts (ne_nil_of_readsMany hat hclauses)
      (List.forall_mem_cons.2 ⟨ih hs.tail, List.forall_mem_cons.2 ⟨ih' ht, hall⟩⟩)
  -- in the cases that continue an operand, `hleft` is what is known of it
  | named _ hname _ ih =>
    exact fun hs hleft => .of_parts hname
      (List.forall_mem_cons.2 ⟨hleft, List.forall_mem_singleton.2 (ih hs.tail)⟩)
  | conditional _ h _ _ ih ih' =>
    intro hs hleft
    have horelse := ih' (hs.tail.onward h.onward.next)
    exact .of_parts trivial (List.forall_mem_cons.2 ⟨ih hs.tail, List.forall_mem_cons.2
      ⟨hleft, List.forall_mem_singleton.2 horelse⟩⟩)
  | boolean _ _ ih => exact fun hs hleft => wellFormed_joined hleft (ih hs.tail)
  | comparison h _ ih ih' =>
    refine fun hs hleft => .of_parts (List.cons_ne_nil _ _) (List.forall_mem_cons.2 ⟨hleft, ?_⟩)
    rw [List.forall_mem_map]
    exact List.forall_mem_cons.2 ⟨ih hs, wellFormed_of_map (ih' (hs.onward h.onward))⟩
  | pow _ _ ih | binary _ _ _ ih =>
    exact fun hs hleft => .of_parts trivial
      (List.forall_mem_cons.2 ⟨hleft, List.forall_mem_singleton.2 (ih hs.tail)⟩)
  | call _ _ _ ih =>
    exact fun hs hleft => .of_parts trivial (List.forall_mem_cons.2
      ⟨hleft, List.forall_mem_append.2 (wellFormed_of_arguments (ih hs.tail))⟩)
  | index _ _ _ ih =>
    exact fun hs hleft => .intro trivial
      (List.forall_mem_cons.2 ⟨hleft, List.forall_mem_singleton.2 (ih hs.tail).index⟩)
  | indexTuple _ h _ _ _ ih ih' =>
    intro hs hleft
    refine .intro trivial (List.forall_mem_cons.2 ⟨hleft, List.forall_mem_singleton.2 ?_⟩)
    refine .intro trivial (List.forall_mem_map.2 (List.forall_mem_cons.2 ⟨ih hs.tail, ?_⟩))
    exact wellFormed_of_map (ih' (hs.tail.onward h.onward))
  | member => exact fun _ hleft => .of_parts trivial (List.forall_mem_singleton.2 hleft)
  | literal | compareOp | notIn | isNot | is => exact fun _ => trivial
  -- a marker has no name, and the name of any other parameter is the text of a name token
  | varArgs _ hname | varKeyword _ hname =>
    exact fun hs => iff_of_false (hs.tail.text hname) Bool.false_ne_true
  | keywordOnlyMarker | positionalOnlyMarker => exact fun _ => iff_of_true rfl rfl
  | positional hname => exact fun hs => iff_of_false (hs.text hname) Bool.false_ne_true
  | afterNothing | unbounded => exact fun _ => forall_mem_none
  | after _ _ _ ih =>
    rintro hs d ⟨⟩
    exact ih hs.tail
  | sliceBound _ _ ih =>
    rintro hs d ⟨⟩
    exact ih hs
  | parameter h h' _ ih ih' ih'' =>
    intro hs
    have ht := hs.onward h.onward
    refine ⟨?_, ih hs, Bool.noConfusion⟩
    rw [Parameter.parts, List.forall_mem_append]
    exact ⟨fun d hd => ih' ht d (Option.mem_toList.1 hd),
      fun d hd => ih'' (ht.onward h'.onward) d (Option.mem_toList.1 hd)⟩
  | lambdaParameter h _ ih ih' =>
    intro hs
    have hdefault := ih' (hs.onward h.onward)
    exact ⟨fun d hd => hdefault d (Option.mem_toList.1 hd), ih hs, fun _ => rfl⟩
  | clause _ h _ h' _ ih ih' ih'' =>
    intro hs
    have ht := hs.tail.onward h.onward.next
    exact List.forall_mem_cons.2 ⟨ih hs.tail, List.forall_mem_cons.2
      ⟨ih' ht, wellFormed_of_map (ih'' (ht.onward h'.onward))⟩⟩
  | asyncClause _ _ h _ h' _ ih ih' ih'' =>
    intro hs
    have ht := hs.tail.tail.onward h.onward.next
    exact List.forall_mem_cons.2 ⟨ih hs.tail.tail, List.forall_mem_cons.2
      ⟨ih' ht, wellFormed_of_map (ih'' (ht.onward h'.onward))⟩⟩
  | unpackedEntry _ _ ih => exact fun hs => List.forall_mem_singleton.2 (ih hs.tail)
  | dictEntry h _ _ ih ih' =>
    intro hs
    have hvalue := ih' (hs.onward h.onward.next)
    exact List.forall_mem_cons.2 ⟨ih hs, List.forall_mem_singleton.2 hvalue⟩
  | link h _ _ ih => exact fun hs => ih (hs.onward h.onward)
  | generatorArgument _ h hat hclauses ih ih' =>
    intro hs
    have hall := wellFormed_of_clauses (ih' (hs.onward h.onward))
    exact .of_parts (ne_nil_of_readsMany hat hclauses) (List.forall_mem_cons.2 ⟨ih hs, hall⟩)
  -- the slot of an index is the only place that a slice fits in
  | slice _ _ _ ih =>
    refine fun hs hlower => .of_parts Slot.noConfusion ?_
    simp only [Expr.parts, List.forall_mem_append, Option.mem_toList]
    exact ⟨⟨hlower, ih hs.tail⟩, forall_mem_none⟩
  | steppedSlice _ h _ _ ih ih' =>
    refine fun hs hlower => .of_parts Slot.noConfusion ?_
    simp only [Expr.parts, List.forall_mem_append, Option.mem_toList]
    exact ⟨⟨hlower, ih hs.tail⟩, ih' (hs.tail.onward h.onward.next)⟩
  | sliceItem _ _ ih => exact fun hs => ih hs (forall_mem_none)
  | boundedSliceItem h _ _ ih ih' =>
    refine fun hs => ih' (hs.onward h.onward) ?_
    rintro d ⟨⟩
    exact ih hs
  | manyDone | commasDone | commasLast | closedDone => exact fun _ => List.forall_mem_nil _
  | manyNext _ h _ ih ih' =>
    exact fun hs => List.forall_mem_cons.2 ⟨ih hs, ih' (hs.onward h.onward)⟩
  | commasNext _ _ h _ ih ih' =>
    exact fun hs => List.forall_mem_cons.2 ⟨ih hs.tail, ih' (hs.tail.onward h.onward)⟩
  | closedNext _ h _ _ ih ih' =>
    exact fun hs => List.forall_mem_cons.2 ⟨ih hs, ih' (hs.onward h.onward.next)⟩
  | closedLast _ _ _ ih => exact fun hs => List.forall_mem_singleton.2 (ih hs)

end NoteCheck.Code
