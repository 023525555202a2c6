/-
# Reading the same expressions in two texts

What is read of an expression does not depend on where it stands in the text, nor on what follows
its line. The main statement is `Parse.agree_expr`.
-/
import NoteCheck.Proofs.Grammar.Alike

namespace NoteCheck.Code

namespace Parse

variable {c : Comparison}

section Rules

variable {expr expr' : BindingPower → Parse Expr}
  (h : ∀ power, Agree c Expr.mapSpan (expr power) (expr' power))

/-- A clause of a comprehension begins in both texts or in neither. -/
theorem atClause_eq {s t : TokenStream} (hst : c.Alike s t) : atClause s = atClause t := by
  rw [atClause, atClause, ← hst.kind]
  cases hs : s.kind with
  | kwAsync => rw [hst.peek (by rw [hs]; rfl)]
  | _ => rfl

/-- Expressions that are the same up to spans take parts of the texts of which the same counts. -/
theorem span_eq {e e' : Expr} (he : e.mapSpan c.left = e'.mapSpan c.right) :
    c.left e.span = c.right e'.span := by
  have hspan := congrArg Expr.span he
  rwa [Expr.span_mapSpan, Expr.span_mapSpan] at hspan

/-- The name of a parameter is the same in both texts, with what the parameter takes up. -/
theorem agree_parameterName : Agree c plain parameterName parameterName := by
  refine .kindOn fun kind => ?_
  split
  · refine .advance rfl fun _ _ _ _ => .kindOn fun kind => .ite (fun hkind => ?_) fun _ => ?_
    · subst hkind
      refine .advance rfl fun a b ha hab => .pure ?_
      rw [hab.text (by rw [ha]; rfl)]
    · exact .on (.pure rfl)
  · refine .advance rfl fun _ _ _ _ => .expect rfl fun a b ha hab => .pure ?_
    rw [hab.text (by rw [ha]; rfl)]
  · exact .advance rfl fun _ _ _ _ => .pure rfl
  · exact .advance rfl fun a b ha hab => .pure (by rw [hab.text (by rw [ha]; rfl)])
  · exact .unexpectedFor

include h

/-- An expression without parentheses is a tuple in both texts or in neither. -/
theorem agree_exprListOf (power : BindingPower) :
    Agree c Expr.mapSpan (exprListOf expr power) (exprListOf expr' power) := by
  refine (h power).bind fun first first' hfirst => .kind fun kind => ?_
  refine .ite (fun _ => ?_) fun _ => .pure hfirst
  refine (AgreeFrom.afterCommas (h power)).bind fun others others' hothers => ?_
  exact .spanFrom (span_eq hfirst) fun a b hab => .pure (by simp [hfirst, hothers, hab])

/-! ### Parameters and comprehensions -/

/-- What stands after a mark is read in both texts, if the mark stands there. -/
theorem agree_exprAfter? {mark : TokenKind} (hgo : mark.goesOn = true) :
    Agree c (perhaps Expr.mapSpan) (exprAfter? expr mark) (exprAfter? expr' mark) := by
  refine .skip? hgo fun found => .ite (fun _ => ?_) fun _ => .pure rfl
  exact (h .default).bind fun e e' he => .pure (congrArg some he)

/-- A parameter is the same in both texts, with its annotation and its default. -/
theorem agree_parameter (annotations : Bool) :
    Agree c Parameter.mapSpan (parameter expr annotations) (parameter expr' annotations) := by
  refine agree_parameterName.bind fun found found' hfound => ?_
  obtain rfl : found = found' := hfound
  have hdefault (type type' : Option Expr)
      (htype : perhaps Expr.mapSpan c.left type = perhaps Expr.mapSpan c.right type') :
      Agree c Parameter.mapSpan
        (do return ⟨found.1, found.2, type, ← exprAfter? expr .assign⟩)
        (do return ⟨found.1, found.2, type', ← exprAfter? expr' .assign⟩) := by
    refine (agree_exprAfter? h rfl).bind fun default default' hdefault => .pure ?_
    simp [Parameter.mapSpan, htype, hdefault]
  refine .ite (fun _ => (agree_exprAfter? h rfl).bind hdefault) fun _ => ?_
  exact (AgreeFrom.pure (F := perhaps Expr.mapSpan) rfl).bind hdefault

/-- Both texts have the same parameters before the closing token. -/
theorem agree_parametersOf (closing : TokenKind) (annotations : Bool) :
    Agree c (each Parameter.mapSpan) (parametersOf expr closing annotations)
      (parametersOf expr' closing annotations) :=
  .untilClosed (agree_parameter h annotations)

/-- A clause of a comprehension is the same in both texts. -/
theorem agree_clause : Agree c Clause.mapSpan (clause expr) (clause expr') := by
  refine .skip? rfl fun isAsync => .expect rfl fun _ _ _ _ => ?_
  refine (agree_exprListOf h .relational).bind fun target target' htarget => ?_
  refine .expect rfl fun _ _ _ _ => (h .ternary).bind fun source source' hsource => ?_
  have hfilters : Agree c (each Expr.mapSpan)
      (manyWhile (·.kind = .kwIf) do let _ ← advance; expr .ternary)
      (manyWhile (·.kind = .kwIf) do let _ ← advance; expr' .ternary) := by
    refine .manyWhile (fun _ _ hst => hst.fuel_le) (fun _ _ hst => by rw [hst.kind]) ?_
    exact .advanceOn (fun s hs => by rw [of_decide_eq_true hs]; rfl) fun _ _ _ _ => h .ternary
  refine hfilters.bind fun filters filters' hfilters => .pure ?_
  simp [Clause.mapSpan, htarget, hsource, hfilters]

/-- Both texts have as many clauses of a comprehension. -/
theorem agree_clausesOf : Agree c (each Clause.mapSpan) (clausesOf expr) (clausesOf expr') :=
  .manyWhile (fun _ _ hst => hst.fuel_le) (fun _ _ => atClause_eq) (agree_clause h).on

/-! ### Brackets -/

/-- Both texts have the same elements after the first one, up to the closing bracket. -/
theorem agree_elementsAfter {first first' : Expr}
    (hfirst : first.mapSpan c.left = first'.mapSpan c.right) {closing : TokenKind}
    (hgo : closing.goesOn = true) : Agree c (each Expr.mapSpan)
      (elementsAfter expr first closing) (elementsAfter expr' first' closing) := by
  refine (AgreeFrom.afterCommas (h .default)).bind fun others others' hothers => ?_
  refine .expect hgo fun _ _ _ _ => .pure ?_
  simp [hfirst, hothers]

section Start

variable {a b : Span} (hab : c.left a = c.right b)

include hab

/-- The clauses of a comprehension, its closing bracket and what they make. -/
theorem agree_comprehension {closing : TokenKind} (hgo : closing.goesOn = true)
    {node node' : List (Clause Expr) → Span → Expr}
    (hnode : ∀ clauses clauses' span span',
      each Clause.mapSpan c.left clauses = each Clause.mapSpan c.right clauses' →
      c.left span = c.right span' →
      (node clauses span).mapSpan c.left = (node' clauses' span').mapSpan c.right) :
    Agree c Expr.mapSpan
      (do
        let clauses ← clausesOf expr
        let _ ← expect closing
        return node clauses (← spanFrom a))
      (do
        let clauses ← clausesOf expr'
        let _ ← expect closing
        return node' clauses (← spanFrom b)) := by
  refine (agree_clausesOf h).bind fun clauses clauses' hclauses => .expect hgo fun _ _ _ _ => ?_
  exact .spanFrom hab fun span span' hspan =>
    .pure (hnode clauses clauses' span span' hclauses hspan)

/-- The elements of a display, its closing bracket and what they make. -/
theorem agree_display {first first' : Expr} (hfirst : first.mapSpan c.left = first'.mapSpan c.right)
    {closing : TokenKind} (hgo : closing.goesOn = true) {node node' : List Expr → Span → Expr}
    (hnode : ∀ elements elements' span span',
      each Expr.mapSpan c.left elements = each Expr.mapSpan c.right elements' →
      c.left span = c.right span' →
      (node elements span).mapSpan c.left = (node' elements' span').mapSpan c.right) :
    Agree c Expr.mapSpan
      (do
        let elements ← elementsAfter expr first closing
        return node elements (← spanFrom a))
      (do
        let elements ← elementsAfter expr' first' closing
        return node' elements (← spanFrom b)) := by
  refine (agree_elementsAfter h hfirst hgo).bind fun elements elements' helements => ?_
  exact .spanFrom hab fun span span' hspan =>
    .pure (hnode elements elements' span span' helements hspan)

/-- A parenthesis opens the same in both texts: nothing, a generator, a tuple or a group. -/
theorem agree_afterParen : Agree c Expr.mapSpan (afterParen expr a) (afterParen expr' b) := by
  refine .skip? rfl fun found => .ite (fun _ => ?_) fun _ => ?_
  · exact .spanFrom hab fun _ _ hspan => .pure (by simp [hspan])
  refine (h .default).bind fun first first' hfirst => .get fun s t hst => ?_
  rw [atClause_eq hst]
  refine .ite (fun _ => ?_) fun _ => .kind fun kind => .ite (fun _ => ?_) fun _ => ?_
  · exact agree_comprehension h hab rfl fun _ _ _ _ hclauses hspan => by
      simp [hfirst, hclauses, hspan]
  · exact agree_display h hab hfirst rfl fun _ _ _ _ helements hspan => by simp [helements, hspan]
  · exact .expect rfl fun _ _ _ _ => .pure hfirst

/-- A bracket opens a list in both texts or a comprehension in both. -/
theorem agree_afterBracket :
    Agree c Expr.mapSpan (afterBracket expr a) (afterBracket expr' b) := by
  refine .skip? rfl fun found => .ite (fun _ => ?_) fun _ => ?_
  · exact .spanFrom hab fun _ _ hspan => .pure (by simp [hspan])
  refine (h .default).bind fun first first' hfirst => .get fun s t hst => ?_
  rw [atClause_eq hst]
  refine .ite (fun _ => ?_) fun _ => ?_
  · exact agree_comprehension h hab rfl fun _ _ _ _ hclauses hspan => by
      simp [hfirst, hclauses, hspan]
  · exact agree_display h hab hfirst rfl fun _ _ _ _ helements hspan => by simp [helements, hspan]

omit hab in
/-- An entry of a dict is the same in both texts. -/
theorem agree_dictEntry : Agree c (both (perhaps Expr.mapSpan) Expr.mapSpan) (dictEntry expr)
    (dictEntry expr') := by
  refine .skip? rfl fun found => .ite (fun _ => ?_) fun _ => ?_
  · exact (h .relational).bind fun e e' he => .pure (by simp [he])
  refine (h .default).bind fun key key' hkey => .expect rfl fun _ _ _ _ => ?_
  exact (h .default).bind fun value value' hvalue => .pure (by simp [hkey, hvalue])

/-- Both texts have the same entries of a dict after those that are read, and then its brace. -/
theorem agree_dictAfter {entries entries' : List (Option Expr × Expr)}
    (hentries : each (both (perhaps Expr.mapSpan) Expr.mapSpan) c.left entries =
      each (both (perhaps Expr.mapSpan) Expr.mapSpan) c.right entries') :
    Agree c Expr.mapSpan (dictAfter expr a entries) (dictAfter expr' b entries') := by
  refine (AgreeFrom.untilClosed (agree_dictEntry h)).bind fun others others' hothers => ?_
  refine .expect rfl fun _ _ _ _ => .spanFrom hab fun _ _ hspan => .pure ?_
  simp only [Expr.mapSpan, Expr.mapSpanInEntries_eq_map, List.map_append, hentries, hothers, hspan]

/-- A brace opens the same in both texts: a dict, a set or a comprehension of either. -/
theorem agree_afterBrace : Agree c Expr.mapSpan (afterBrace expr a) (afterBrace expr' b) := by
  refine .skip? rfl fun found => .ite (fun _ => ?_) fun _ => .kind fun kind => ?_
  · exact .spanFrom hab fun _ _ hspan => .pure (by simp [hspan])
  refine .ite (fun _ => agree_dictAfter h hab rfl) fun _ => ?_
  refine (h .default).bind fun first first' hfirst => .skip? rfl fun colon => ?_
  refine .ite (fun _ => ?_) fun _ => ?_
  · refine (h .default).bind fun value value' hvalue => .get fun s t hst => ?_
    rw [atClause_eq hst]
    refine .ite (fun _ => ?_) fun _ => ?_
    · exact agree_comprehension h hab rfl fun _ _ _ _ hclauses hspan => by
        simp [hfirst, hvalue, hclauses, hspan]
    · exact .skip? rfl fun _ => agree_dictAfter h hab (by simp [hfirst, hvalue])
  · refine .get fun s t hst => ?_
    rw [atClause_eq hst]
    refine .ite (fun _ => ?_) fun _ => ?_
    · exact agree_comprehension h hab rfl fun _ _ _ _ hclauses hspan => by
        simp [hfirst, hclauses, hspan]
    · exact agree_display h hab hfirst rfl fun _ _ _ _ helements hspan => by simp [helements, hspan]

/-! ### Openings -/

omit h hab in
/-- Both texts have the same string literals side by side. -/
theorem agree_strings {first first' : Token} (hlike : c.Like first first')
    (hfirst : first.kind.isLayout = false) :
    Agree c Expr.mapSpan (strings first) (strings first') := by
  have hliteral : AgreeOn c (fun s => (s.kind = .string || s.kind = .formattedString) = true)
      (fun _ (t : Token) => (t.kind, t.text)) advance advance := by
    rintro s t ⟨hst, hs⟩ a u ha
    obtain ⟨rfl, rfl⟩ := advance_eq_ok.1 ha
    have hkind : s.kind.isLayout = false := by
      simp only [Bool.or_eq_true, decide_eq_true_eq] at hs
      obtain hs | hs := hs <;> rw [hs] <;> rfl
    exact ⟨t.current, t.tail, rfl, Prod.ext hst.kind (hst.current.text hkind),
      hst.tail (TokenKind.goesOn_of_isLayout hkind)⟩
  refine (AgreeFrom.manyWhile (fun _ _ hst => hst.fuel_le) (fun _ _ hst => by rw [hst.kind])
    hliteral).bind fun others others' hothers => .spanFrom (hlike.span hfirst) fun _ _ hspan => ?_
  have hkinds := congrArg (List.map Prod.fst) hothers
  have htexts := congrArg (List.map Prod.snd) hothers
  simp only [List.map_map, Function.comp_def] at hkinds htexts
  -- whether one of the literals is formatted depends on the kinds only
  have hany : (first :: others).any (·.kind = .formattedString) =
      (first' :: others').any (·.kind = .formattedString) := by
    have hmap (tokens : List Token) : tokens.any (·.kind = .formattedString) =
        (tokens.map Token.kind).any (· = .formattedString) := by
      rw [List.any_map]
      rfl
    rw [hmap, hmap, List.map_cons, List.map_cons, hlike.kind]
    exact congrArg (fun kinds => (first'.kind :: kinds).any (· = .formattedString)) hkinds
  rw [hany]
  refine .ite (fun _ => .pure (by simp [hspan])) fun _ => .pure ?_
  have hmap : (first :: others).map Token.text = (first' :: others').map Token.text := by
    rw [List.map_cons, List.map_cons, hlike.text hfirst]
    exact congrArg _ htexts
  simp [hmap, hspan]

/-- What is yielded is the same in both texts. -/
theorem agree_afterYield : Agree c Expr.mapSpan (afterYield expr a) (afterYield expr' b) := by
  refine .skip? rfl fun found => .ite (fun _ => ?_) fun _ => .kind fun kind => ?_
  · refine (h .default).bind fun e e' he => ?_
    exact .spanFrom hab fun _ _ hspan => .pure (by simp [he, hspan])
  refine .ite (fun _ => ?_) fun _ => .spanFrom hab fun _ _ hspan => .pure (by simp [hspan])
  refine (agree_exprListOf h .default).bind fun e e' he => ?_
  exact .spanFrom hab fun _ _ hspan => .pure (by simp [he, hspan])

end Start

omit h in
/-- No mark of layout opens an expression. -/
theorem isLayout_of_opening {kind : TokenKind} {opening : Opening}
    (hkind : kind.opening? = some opening) : kind.isLayout = false := by
  cases kind <;> first | rfl | cases hkind

/-- A token opens the same expression in both texts. -/
theorem agree_opened {kind : TokenKind} {opening : Opening}
    (hkind : kind.opening? = some opening) :
    AgreeOn c (·.kind = kind) Expr.mapSpan (opened expr opening) (opened expr' opening) := by
  have hlayout := isLayout_of_opening hkind
  refine .advance (TokenKind.goesOn_of_isLayout hlayout) fun s t hs hst => ?_
  rw [← hs] at hlayout
  have hspan := hst.span hlayout
  have htext := hst.text hlayout
  cases opening with
  | name | number | constant =>
    exact .spanFrom hspan fun _ _ hspan => .pure (by simp [htext, hspan])
  | string => exact agree_strings hst hlayout
  | unary | starred | await =>
    refine (h _).bind fun e e' he => ?_
    exact .spanFrom hspan fun _ _ hspan => .pure (by simp [he, hspan])
  | yield => exact agree_afterYield h hspan
  | lambda =>
    refine (agree_parametersOf h .colon false).bind fun ps ps' hps => .expect rfl fun _ _ _ _ => ?_
    refine (h .default).bind fun e e' he => ?_
    exact .spanFrom hspan fun _ _ hspan => .pure (by simp [he, hps, hspan])
  | parens => exact agree_afterParen h hspan
  | brackets => exact agree_afterBracket h hspan
  | braces => exact agree_afterBrace h hspan

/-! ### Continuations -/

omit h in
/-- An operator that compares is the same in both texts, if it is of two words as well. -/
theorem agree_compareOp : Agree c plain compareOp compareOp := by
  have hrest (operator operator' : CompareOp) (hoperator : operator = operator') :
      AgreeOn c (·.kind.goesOn = true) plain (do let _ ← advance; return operator)
        (do let _ ← advance; return operator') :=
    .advanceOn (fun _ hs => hs) fun _ _ _ _ => .pure hoperator
  have hpure (operator : CompareOp) {kind : TokenKind} (hgo : kind.goesOn = true) :
      AgreeOn c (·.kind = kind) plain
        (pure operator >>= fun operator => do let _ ← advance; return operator)
        (pure operator >>= fun operator => do let _ ← advance; return operator) := by
    refine AgreeFrom.bind (F := plain) (.pureOf rfl fun s t hst => ?_) hrest
    exact ⟨hst.1, (congrArg TokenKind.goesOn hst.2).trans hgo⟩
  refine .kindOn fun kind => ?_
  split
  case h_8 =>
    refine .advance rfl fun _ _ _ _ => .kindOn fun kind => .ite (fun hkind => ?_) fun _ => ?_
    · subst hkind
      exact hpure _ rfl
    · exact .unexpectedFor
  case h_9 =>
    refine .getIf ?_ ?_ (hpure _ rfl)
    · intro s t hst
      rw [hst.1.peek (by rw [hst.2]; rfl)]
    · exact .advanceTo rfl (by decide) (fun _ hs => hs) fun _ _ _ _ => hpure _ rfl
  case h_10 => exact .unexpected
  all_goals exact hpure _ rfl

/-- A comparison is the same in both texts, with the operand after its operator. -/
theorem agree_link : Agree c (both plain Expr.mapSpan) (link expr) (link expr') := by
  refine agree_compareOp.bind fun operator operator' hoperator => ?_
  exact (h .relational).bind fun e e' he => .pure (Prod.ext hoperator he)

/-- An argument is the same in both texts, and passed in the same way. -/
theorem agree_argument : Agree c (either Expr.mapSpan (both plain Expr.mapSpan)) (argument expr)
    (argument expr') := by
  refine .skip? rfl fun found => .ite (fun _ => ?_) fun _ => .kindOn fun kind =>
    .getIf ?_ ?_ (.on ?_)
  · exact (h .default).bind fun e e' he => .pure (by simp [he])
  · intro s t hst
    refine and_congr_right fun hkind => ?_
    rw [hst.1.peek (by rw [hst.2, hkind]; rfl)]
  · by_cases hkind : kind = .identifier
    · subst hkind
      refine .advanceTo rfl (by decide) (fun _ hs => hs.2) fun a b ha hab => ?_
      refine .advance rfl fun _ _ _ _ => (h .default).bind fun e e' he => .pure ?_
      simp [he, hab.text (by rw [ha]; rfl)]
    · exact fun _ _ hst => absurd hst.2.1 hkind
  · refine (h .default).bind fun e e' he => .getIf (fun s t hst => by rw [atClause_eq hst]) ?_ ?_
    · refine (agree_clausesOf h).on.bind fun clauses clauses' hclauses => ?_
      exact .spanFrom (span_eq he) fun _ _ hspan => .pure (by simp [he, hclauses, hspan])
    · exact .pure (congrArg Sum.inl he)

/-- A part of a slice is there in both texts or in neither. -/
theorem agree_sliceBound? :
    Agree c (perhaps Expr.mapSpan) (sliceBound? expr) (sliceBound? expr') := by
  refine .kind fun kind => .ite (fun _ => .pure rfl) fun _ => ?_
  exact (h .default).bind fun e e' he => .pure (congrArg some he)

/-- A slice is the same in both texts from its colon on. -/
theorem agree_sliceAfter {lower lower' : Option Expr}
    (hlower : perhaps Expr.mapSpan c.left lower = perhaps Expr.mapSpan c.right lower') :
    Agree c Expr.mapSpan (sliceAfter expr lower) (sliceAfter expr' lower') := by
  refine .expect rfl fun a b ha hab => (agree_sliceBound? h).bind fun upper upper' hupper => ?_
  have hstart : c.left ((lower.map Expr.span).getD a.span) =
      c.right ((lower'.map Expr.span).getD b.span) := by
    cases lower with
    | none =>
      obtain rfl := Option.map_eq_none_iff.1 hlower.symm
      exact hab.span (by rw [ha]; rfl)
    | some e =>
      obtain ⟨e', rfl, he⟩ := Option.map_eq_some_iff.1 hlower.symm
      exact span_eq he.symm
  have hstep (step step' : Option Expr)
      (hstep : perhaps Expr.mapSpan c.left step = perhaps Expr.mapSpan c.right step') :
      Agree c Expr.mapSpan
        (do return .slice (← spanFrom ((lower.map Expr.span).getD a.span)) lower upper step)
        (do return .slice (← spanFrom ((lower'.map Expr.span).getD b.span)) lower' upper' step') :=
    .spanFrom hstart fun _ _ hspan => .pure (by simp [hlower, hupper, hstep, hspan])
  refine .skip? rfl fun colon => .ite (fun _ => (agree_sliceBound? h).bind hstep) fun _ => ?_
  exact (AgreeFrom.pure (F := perhaps Expr.mapSpan) rfl).bind hstep

/-- Both texts have an index, or both have a slice. -/
theorem agree_subscriptItem :
    Agree c Expr.mapSpan (subscriptItem expr) (subscriptItem expr') := by
  refine .kind fun kind => .ite (fun _ => agree_sliceAfter h rfl) fun _ => ?_
  refine (h .default).bind fun lower lower' hlower => .kind fun kind => ?_
  exact .ite (fun _ => agree_sliceAfter h (congrArg some hlower)) fun _ => .pure hlower

/-- What stands between the brackets of a subscript is the same in both texts. -/
theorem agree_subscriptIndex {a b : Span} (hab : c.left a = c.right b) :
    Agree c Expr.mapSpan (subscriptIndex expr a) (subscriptIndex expr' b) := by
  refine (agree_subscriptItem h).bind fun first first' hfirst => .kind fun kind => ?_
  refine (AgreeFrom.afterCommas (agree_subscriptItem h)).bind fun others others' hothers => ?_
  refine .expect rfl fun _ _ _ _ => .ite (fun _ => .pure hfirst) fun _ => ?_
  exact .spanFrom hab fun _ _ hspan => .pure (by simp [hfirst, hothers, hspan])

section Left

variable {f : Span → Span}

omit h in
/-- Whether values are joined does not depend on spans. -/
theorem map_joined (operator : BoolOp) (left right : Expr) :
    (joined operator left right).map (Expr.mapSpan f) =
      joined operator (left.mapSpan f) (right.mapSpan f) := by
  cases left with
  | boolean _ previous values =>
    by_cases hprevious : previous = operator
    · simp [joined, hprevious]
    · simp [joined, hprevious]
  | _ => rfl

omit h in
/-- Arguments by position are the same up to spans when all arguments are. -/
theorem map_filterMap_getLeft? (arguments : List (Expr ⊕ Option String × Expr)) :
    (arguments.filterMap Sum.getLeft?).map (Expr.mapSpan f) =
      (each (either Expr.mapSpan (both plain Expr.mapSpan)) f arguments).filterMap
        Sum.getLeft? := by
  rw [List.map_filterMap, List.filterMap_map]
  congr 1
  funext a
  cases a <;> rfl

omit h in
/-- Arguments by name are the same up to spans when all arguments are. -/
theorem map_filterMap_getRight? (arguments : List (Expr ⊕ Option String × Expr)) :
    (arguments.filterMap Sum.getRight?).map (Prod.map id (Expr.mapSpan f)) =
      (each (either Expr.mapSpan (both plain Expr.mapSpan)) f arguments).filterMap
        Sum.getRight? := by
  rw [List.map_filterMap, List.filterMap_map]
  congr 1
  funext a
  cases a <;> rfl

end Left

/-- A token continues an expression alike in both texts. -/
theorem agree_continued {kind : TokenKind} {continuation : Continuation}
    (hkind : kind.continuation? = some continuation) {left left' : Expr}
    (hleft : left.mapSpan c.left = left'.mapSpan c.right) :
    AgreeOn c (·.kind = kind) Expr.mapSpan (continued expr left continuation)
      (continued expr' left' continuation) := by
  have hlayout : kind.isLayout = false := by cases kind <;> first | rfl | cases hkind
  have hgo := TokenKind.goesOn_of_isLayout hlayout
  have hspan := span_eq hleft
  -- most continuations read one operand and end there
  have hoperand {power : BindingPower} {k l : Expr → Span → Expr}
      (hkl : ∀ e e' s s', e.mapSpan c.left = e'.mapSpan c.right → c.left s = c.right s' →
        (k e s).mapSpan c.left = (l e' s').mapSpan c.right) :
      AgreeOn c (·.kind = kind) Expr.mapSpan
        (do let _ ← advance; let e ← expr power; return k e (← spanFrom left.span))
        (do let _ ← advance; let e ← expr' power; return l e (← spanFrom left'.span)) :=
    .advance hgo fun _ _ _ _ => (h power).bind fun e e' he => .spanFrom hspan fun s s' hs =>
      .pure (hkl e e' s s' he hs)
  cases continuation with
  | named =>
    have hname := congrArg Expr.isName hleft
    rw [Expr.isName_mapSpan, Expr.isName_mapSpan] at hname
    unfold continued
    dsimp only
    rw [hname]
    exact .ite (fun _ => hoperand fun _ _ _ _ he hs => by simp [hleft, he, hs]) fun _ =>
      .unexpectedFor
  | conditional =>
    refine .advance hgo fun _ _ _ _ => (h .ternary).bind fun test test' htest => ?_
    refine .expect rfl fun _ _ _ _ => (h .default).bind fun orelse orelse' horelse => ?_
    exact .spanFrom hspan fun _ _ hs => .pure (by simp [hleft, htest, horelse, hs])
  | boolean operator =>
    refine hoperand fun e e' _ _ he hs => ?_
    simp only [Expr.mapSpan, Expr.mapSpanIn_eq_map, map_joined, hleft, he, hs]
  | comparison =>
    refine (agree_link h).on.bind fun first first' hfirst => ?_
    refine (AgreeFrom.manyWhile (fun _ _ hst => hst.fuel_le) (fun _ _ hst => by rw [hst.kind])
      (agree_link h).on).bind fun others others' hothers => .spanFrom hspan fun _ _ hs => .pure ?_
    simp only [Expr.mapSpan, Expr.mapSpanInLinks_eq_map, List.map_cons, hleft, hfirst, hothers, hs]
  | binary operator =>
    cases operator <;> exact hoperand fun _ _ _ _ he hs => by simp [hleft, he, hs]
  | call =>
    refine .advance hgo fun _ _ _ _ => (AgreeFrom.untilClosed (agree_argument h)).bind
      fun arguments arguments' harguments => .expect rfl fun _ _ _ _ => ?_
    refine .spanFrom hspan fun _ _ hs => .pure ?_
    simp only [Expr.mapSpan, Expr.mapSpanIn_eq_map, Expr.mapSpanInKeywords_eq_map,
      map_filterMap_getLeft?, map_filterMap_getRight?, hleft, harguments, hs]
  | subscript =>
    refine .advance hgo fun a b ha hab => ?_
    refine (agree_subscriptIndex h (hab.span (by rw [ha]; exact hlayout))).bind
      fun index index' hindex => ?_
    exact .spanFrom hspan fun _ _ hs => .pure (by simp [hleft, hindex, hs])
  | member =>
    refine .advance hgo fun _ _ _ _ => .expect rfl fun a b ha hab => ?_
    refine .spanFrom hspan fun _ _ hs => .pure ?_
    simp [hleft, hab.text (by rw [ha]; rfl), hs]

/-- With a way to read parts alike, an expression is read alike in both texts. -/
theorem agree_exprOf (power : BindingPower) :
    Agree c Expr.mapSpan (exprOf expr power) (exprOf expr' power) := by
  refine .kindOn fun kind => ?_
  cases hkind : kind.opening? with
  | none => exact .unexpected
  | some opening =>
    refine (agree_opened h hkind).bind fun first first' hfirst => ?_
    refine .loop (F := Expr.mapSpan) (fun _ _ hst => hst.fuel_le)
      (fun left left' hleft => ?_) hfirst
    refine .kindOn fun kind => .ite (fun _ => ?_) fun _ => .on (.lastRound hleft)
    cases hkind : kind.continuation? with
    | none => exact .unexpected
    | some continuation =>
      exact (agree_continued h hkind hleft).bind fun e e' he => .nextRound he

end Rules

/-- Expressions are read alike at every depth, and where the bound on the depth is higher. -/
theorem agree_exprWithin {n m : Nat} (hnm : n ≤ m) : ∀ power,
    Agree c Expr.mapSpan (exprWithin n power) (exprWithin m power) := by
  induction n generalizing m with
  | zero => exact fun _ _ _ _ _ _ h => absurd h throw_ne_ok
  | succ n ih =>
    obtain ⟨m, rfl⟩ : ∃ k, m = k + 1 := ⟨m - 1, by omega⟩
    exact fun power => agree_exprOf (ih (by omega)) power

/-- An expression is the same in both texts. -/
theorem agree_expr (power : BindingPower) :
    Agree c Expr.mapSpan (expr power) (expr power) :=
  .get fun _ _ hst => agree_exprWithin hst.fuel_le power

/-- A tuple without parentheses is the same in both texts. -/
theorem agree_exprList (power : BindingPower) :
    Agree c Expr.mapSpan (exprList power) (exprList power) :=
  agree_exprListOf agree_expr power

/-- Both texts have the same parameters up to a closing token. -/
theorem agree_parameters (closing : TokenKind) (annotations : Bool) :
    Agree c (each Parameter.mapSpan) (parameters closing annotations)
      (parameters closing annotations) :=
  agree_parametersOf agree_expr closing annotations

end Parse

end NoteCheck.Code
