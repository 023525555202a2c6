/-
# Expressions are read by the rules

What the reader of expressions reads follows the rules of the grammar. Each reader over a reader
for the expressions inside it keeps to the rules if that one does, and so the reader of any depth
does, by induction on the depth.
-/
import NoteCheck.Proofs.Grammar.ExprRules
import NoteCheck.Proofs.Grammar.Steps

namespace NoteCheck.Code

/-! ## Tables -/

/-- The tokens that open an expression in a way. -/
def Opening.kinds : Opening → List TokenKind
  | .name => [.identifier]
  | .number => [.number]
  | .string => [.string, .formattedString]
  | .constant (.bool true) => [.kwTrue]
  | .constant (.bool false) => [.kwFalse]
  | .constant .none => [.kwNone]
  | .constant .ellipsis => [.ellipsis]
  | .constant _ => []
  | .unary .negate => [.minus]
  | .unary .plus => [.plus]
  | .unary .invert => [.tilde]
  | .unary .not => [.kwNot]
  | .starred => [.star]
  | .await => [.kwAwait]
  | .yield => [.kwYield]
  | .lambda => [.kwLambda]
  | .parens => [.openParen]
  | .brackets => [.openBracket]
  | .braces => [.openBrace]

/-- A token that opens an expression is one of those that open it in this way. -/
theorem TokenKind.mem_kinds_of_opening? {kind : TokenKind} {opening : Opening}
    (h : kind.opening? = some opening) : kind ∈ opening.kinds := by
  unfold TokenKind.opening? at h
  split at h
  all_goals first
    | obtain rfl := Option.some.inj h
      decide
    | cases h

/-- The tokens that continue an expression in a way, apart from comparisons. -/
theorem TokenKind.continuation?_cases {kind : TokenKind} {continuation : Continuation}
    (h : kind.continuation? = some continuation) :
    match continuation with
    | .named => kind = .colonAssign
    | .conditional => kind = .kwIf
    | .binary op => kind.binaryOp? = some op
    | .call => kind = .openParen
    | .subscript => kind = .openBracket
    | .member => kind = .dot
    | .boolean _ | .comparison => True := by
  cases kind <;> cases h <;> first | rfl | trivial

/-- Two stars are the only sign of a power. -/
theorem TokenKind.eq_doubleStar_of_binaryOp? {kind : TokenKind} (h : kind.binaryOp? = some .pow) :
    kind = .doubleStar := by
  unfold TokenKind.binaryOp? at h
  split at h
  all_goals first | rfl | cases h

namespace TokenStream

/-- A token of the kind is skipped. -/
theorem skip_of_eq {s : TokenStream} {kind : TokenKind} (h : s.kind = kind) :
    s.skip kind = s.tail := by rw [skip, if_pos h]

/-- A token of another kind is not skipped. -/
theorem skip_of_ne {s : TokenStream} {kind : TokenKind} (h : s.kind ≠ kind) : s.skip kind = s := by
  rw [skip, if_neg h]

end TokenStream

namespace Parse

/-- A reader keeps to the rules of a phrase whenever it succeeds. -/
def ReadsAs {α : Type} (p : Parse α) (phrase : α → Phrase ExprPart) : Prop :=
  ∀ {s a t}, p s = .ok (a, t) → ReadsExpr s (phrase a) t

section Rules

variable {α : Type} {part : α → ExprPart} {item : Parse α}

/-- Items follow the grammar when each of them does. -/
theorem manyWhile_readsAs {more : TokenStream → Bool}
    (hitem : ∀ {s a t}, more s = true → item s = .ok (a, t) → ReadsExpr s (.one (part a)) t) :
    ReadsAs (manyWhile more item) (fun found => .many more (found.map part)) := by
  intro s found t h
  refine manyWhile_induction (P := fun s found t => ReadsExpr s (.many more (found.map part)) t)
    ?_ ?_ h
  · intro s hmore
    exact .manyDone hmore
  · intro s a t found u hmore ha hfound
    exact .manyNext hmore (hitem hmore ha) hfound

/-- Items after commas follow the grammar when each of them does. -/
theorem afterCommas_readsAs {atEnd : TokenKind → Bool} (hitem : ReadsAs item (.one ∘ part)) :
    ReadsAs (afterCommas atEnd item) (fun found => .afterCommas atEnd (found.map part)) := by
  intro s found t h
  refine afterCommas_induction
    (P := fun s found t => ReadsExpr s (.afterCommas atEnd (found.map part)) t) ?_ ?_ ?_ h
  · intro s hcomma
    exact .commasDone hcomma
  · intro s hcomma hend
    exact .commasLast hcomma hend
  · intro s a t found u hcomma hend ha hfound
    exact .commasNext hcomma hend (hitem ha) hfound

/-- Items up to a closing token follow the grammar when each of them does. -/
theorem untilClosed_readsAs {closing : TokenKind} (hitem : ReadsAs item (.one ∘ part)) :
    ReadsAs (untilClosed closing item) (fun found => .untilClosed closing (found.map part)) := by
  intro s found t h
  refine untilClosed_induction
    (P := fun s found t => ReadsExpr s (.untilClosed closing (found.map part)) t) ?_ ?_ ?_ h
  · intro s hclosing
    exact .closedDone hclosing
  · intro s a t hclosing ha hcomma
    exact .closedLast hclosing (hitem ha) hcomma
  · intro s a t found u hclosing ha hcomma hfound
    exact .closedNext hclosing (hitem ha) hcomma hfound

variable {expr : BindingPower → Parse Expr}
  (hexpr : ∀ power, ReadsAs (expr power) (.one ∘ .expr power))
include hexpr

/-- A tuple without parentheses follows the grammar. -/
theorem exprListOf_readsAs (power : BindingPower) :
    ReadsAs (exprListOf expr power) (.one ∘ .exprList power) := by
  intro s e t h
  simp [exprListOf] at h
  obtain ⟨first, u, hfirst, ⟨hcomma, others, hothers, rfl⟩ | ⟨hcomma, rfl, rfl⟩⟩ := h
  · exact .bareTuple (hexpr power hfirst) hcomma (afterCommas_readsAs (hexpr power) hothers)
  · exact .single (hexpr power hfirst) hcomma

omit hexpr in
/-- The name of a parameter follows the grammar, with the stars before it. -/
theorem parameterName_readsAs : ReadsAs parameterName (fun p => .one (.parameterName p.1 p.2)) := by
  intro s p t h
  rw [parameterName, kind_bind] at h
  generalize hkind : s.kind = kind at h
  split at h
  · simp at h
    obtain ⟨hname, rfl, rfl⟩ | ⟨hname, rfl, rfl⟩ := h
    · exact .varArgs hkind hname
    · exact .keywordOnlyMarker hkind hname
  · simp at h
    obtain ⟨⟨hname, rfl⟩, rfl⟩ := h
    exact .varKeyword hkind hname
  · simp at h
    obtain ⟨rfl, rfl⟩ := h
    exact .positionalOnlyMarker hkind
  · simp at h
    obtain ⟨rfl, rfl⟩ := h
    exact .positional hkind
  · exact absurd h unexpectedFor_ne_ok

/-- What stands after a mark follows the grammar. -/
theorem exprAfter?_readsAs {mark : TokenKind} (hmark : mark ∈ [.colon, .assign, .arrow]) :
    ReadsAs (exprAfter? expr mark) (.one ∘ .after mark) := by
  intro s e t h
  simp [exprAfter?] at h
  obtain ⟨hkind, e, he, rfl⟩ | ⟨hkind, rfl, rfl⟩ := h
  · exact .after hmark hkind (hexpr .default he)
  · exact .afterNothing hkind

/-- A parameter follows the grammar. -/
theorem parameter_readsAs (annotations : Bool) :
    ReadsAs (parameter expr annotations) (.one ∘ .parameter annotations) := by
  intro s p t h
  simp [parameter] at h
  obtain ⟨name, kind, u, hname, ⟨rfl, type, v, htype, default, hdefault, rfl⟩ |
    ⟨rfl, default, hdefault, rfl⟩⟩ := h
  · exact .parameter (parameterName_readsAs hname)
      (exprAfter?_readsAs hexpr (by decide) htype)
      (exprAfter?_readsAs hexpr (by decide) hdefault)
  · exact .lambdaParameter (parameterName_readsAs hname)
      (exprAfter?_readsAs hexpr (by decide) hdefault)

/-- The filters of a comprehension follow the grammar. -/
theorem filters_readsAs :
    ReadsAs (manyWhile (·.kind = .kwIf) (advance >>= fun _ => expr .ternary))
      (fun filters => .many (·.kind = .kwIf) (filters.map .filter)) := by
  refine manyWhile_readsAs ?_
  intro s e t hif he
  rw [advance_bind] at he
  exact .filter (by simpa using hif) (hexpr .ternary he)

/-- A clause of a comprehension follows the grammar. -/
theorem clause_readsAs : ReadsAs (clause expr) (.one ∘ .clause) := by
  intro s c t h
  simp [clause] at h
  obtain ⟨hasync, hfor, target, u, htarget, hin, source, v, hsource, filters, hfilters, rfl⟩ |
    ⟨-, hfor, target, u, htarget, hin, source, v, hsource, filters, hfilters, rfl⟩ := h
  · exact .asyncClause hasync hfor (exprListOf_readsAs hexpr .relational htarget) hin
      (hexpr .ternary hsource) (filters_readsAs hexpr hfilters)
  · exact .clause hfor (exprListOf_readsAs hexpr .relational htarget) hin
      (hexpr .ternary hsource) (filters_readsAs hexpr hfilters)

/-- The clauses of a comprehension follow the grammar. -/
theorem clausesOf_readsAs :
    ReadsAs (clausesOf expr) (fun clauses => .many atClause (clauses.map .clause)) :=
  manyWhile_readsAs fun _ hclause => clause_readsAs hexpr hclause

/-! ## Brackets -/

/-- What stands after an opening parenthesis makes an expression together with it. -/
theorem afterParen_reads {s t : TokenStream} {e : Expr} (hkind : s.kind = .openParen)
    (h : afterParen expr s.current.span s.tail = .ok (e, t)) :
    ReadsExpr s (.one (.opening e)) t := by
  simp [afterParen, elementsAfter] at h
  obtain ⟨hclose, rfl, rfl⟩ | ⟨-, first, u, hfirst, h⟩ := h
  · exact .unit hkind hclose
  · have hfirst := hexpr .default hfirst
    obtain ⟨hclause, clauses, v, hclauses, hclose, rfl, rfl⟩ |
      ⟨-, ⟨hcomma, others, v, hothers, hclose, rfl, rfl⟩ | ⟨-, ⟨hclose, rfl⟩, rfl⟩⟩ := h
    · exact .generator hkind hfirst hclause (clausesOf_readsAs hexpr hclauses) hclose
    · exact .tuple hkind hfirst hcomma (afterCommas_readsAs (hexpr .default) hothers) hclose
    · exact .group hkind hfirst hclose

/-- What stands after an opening bracket makes an expression together with it. -/
theorem afterBracket_reads {s t : TokenStream} {e : Expr} (hkind : s.kind = .openBracket)
    (h : afterBracket expr s.current.span s.tail = .ok (e, t)) :
    ReadsExpr s (.one (.opening e)) t := by
  simp [afterBracket, elementsAfter] at h
  obtain ⟨hclose, rfl, rfl⟩ | ⟨-, first, u, hfirst, h⟩ := h
  · exact .emptyList hkind hclose
  · have hfirst := hexpr .default hfirst
    obtain ⟨hclause, clauses, v, hclauses, hclose, rfl, rfl⟩ |
      ⟨-, others, v, hothers, hclose, rfl, rfl⟩ := h
    · exact .listComprehension hkind hfirst hclause (clausesOf_readsAs hexpr hclauses) hclose
    · exact .listDisplay hkind hfirst (afterCommas_readsAs (hexpr .default) hothers) hclose

/-- An entry of a dict follows the grammar. -/
theorem dictEntry_readsAs : ReadsAs (dictEntry expr) (.one ∘ .dictEntry) := by
  intro s entry t h
  simp [dictEntry] at h
  obtain ⟨hstar, e, he, rfl⟩ | ⟨-, key, u, hkey, hcolon, e, he, rfl⟩ := h
  · exact .unpackedEntry hstar (hexpr .relational he)
  · exact .dictEntry (hexpr .default hkey) hcolon (hexpr .default he)

/-- What stands after an opening brace makes an expression together with it. -/
theorem afterBrace_reads {s t : TokenStream} {e : Expr} (hkind : s.kind = .openBrace)
    (h : afterBrace expr s.current.span s.tail = .ok (e, t)) :
    ReadsExpr s (.one (.opening e)) t := by
  have hentries {u v entries} (h : untilClosed .closeBrace (dictEntry expr) u = .ok (entries, v)) :
      ReadsExpr u (.untilClosed .closeBrace (entries.map .dictEntry)) v :=
    untilClosed_readsAs (dictEntry_readsAs hexpr) h
  simp [afterBrace, dictAfter, elementsAfter] at h
  obtain ⟨hclose, rfl, rfl⟩ | ⟨-, ⟨hstar, entries, u, h, hclose, rfl, rfl⟩ |
    ⟨-, first, u, hfirst, ⟨hcolon, value, v, hvalue, h⟩ | ⟨-, h⟩⟩⟩ := h
  · exact .emptyDict hkind hclose
  · exact .unpackedDict hkind hstar (hentries h) hclose
  · have hfirst := hexpr .default hfirst
    have hvalue := hexpr .default hvalue
    obtain ⟨hclause, clauses, w, hclauses, hclose, rfl, rfl⟩ |
      ⟨-, ⟨hcomma, entries, w, h, hclose, rfl, rfl⟩ | ⟨hcomma, entries, w, h, hclose, rfl, rfl⟩⟩
      := h
    · exact .dictComprehension hkind hfirst hcolon hvalue hclause
        (clausesOf_readsAs hexpr hclauses) hclose
    · rw [← TokenStream.skip_of_eq hcomma] at h
      exact .dictDisplay hkind hfirst hcolon hvalue (hentries h) hclose
    · rw [← TokenStream.skip_of_ne hcomma] at h
      exact .dictDisplay hkind hfirst hcolon hvalue (hentries h) hclose
  · have hfirst := hexpr .default hfirst
    obtain ⟨hclause, clauses, v, hclauses, hclose, rfl, rfl⟩ |
      ⟨-, others, v, hothers, hclose, rfl, rfl⟩ := h
    · exact .setComprehension hkind hfirst hclause (clausesOf_readsAs hexpr hclauses) hclose
    · exact .setDisplay hkind hfirst (afterCommas_readsAs (hexpr .default) hothers) hclose

/-! ## Openings -/

omit hexpr in
/-- String literals side by side follow the grammar. -/
theorem literals_readsAs :
    ReadsAs (manyWhile TokenStream.atLiteral advance)
      (fun literals => .many TokenStream.atLiteral (literals.map .literal)) := by
  refine manyWhile_readsAs ?_
  intro s token t hliteral htoken
  obtain ⟨rfl, rfl⟩ := advance_eq_ok.1 htoken
  exact .literal hliteral

omit hexpr in
/-- String literals side by side make an expression. -/
theorem strings_reads {s t : TokenStream} {e : Expr} (hkind : s.atLiteral)
    (h : strings s.current s.tail = .ok (e, t)) : ReadsExpr s (.one (.opening e)) t := by
  rw [strings, bind_eq_ok] at h
  obtain ⟨others, u, hothers, h⟩ := h
  have he :
      (Expr.ofLiterals (s.current.span.through u.last) (s.current :: others), u) = (e, t) := by
    rw [spanFrom_bind, ← apply_ite pure, ← Expr.ofLiterals] at h
    exact Except.ok.inj h
  obtain ⟨rfl, rfl⟩ := Prod.mk.inj he
  exact .strings hkind (literals_readsAs hothers)

/-- What stands after `yield` makes an expression together with it. -/
theorem afterYield_reads {s t : TokenStream} {e : Expr} (hkind : s.kind = .kwYield)
    (h : afterYield expr s.current.span s.tail = .ok (e, t)) :
    ReadsExpr s (.one (.opening e)) t := by
  simp [afterYield] at h
  obtain ⟨hfrom, e, he, rfl⟩ | ⟨hfrom, ⟨hopens, e, he, rfl⟩ | ⟨hopens, rfl, rfl⟩⟩ := h
  · exact .yieldFrom hkind hfrom (hexpr .default he)
  · exact .yieldValue hkind hopens (exprListOf_readsAs hexpr .default he)
  · exact .yieldNothing hkind hfrom (by rw [hopens]; decide)

/-- The expression that a token opens. -/
theorem opened_reads {s t : TokenStream} {opening : Opening} {e : Expr}
    (hopening : s.kind.opening? = some opening) (h : opened expr opening s = .ok (e, t)) :
    ReadsExpr s (.one (.opening e)) t := by
  have hkind := TokenKind.mem_kinds_of_opening? hopening
  -- one rule of the grammar for each token that opens; those with brackets have lemmas of their own
  cases opening with
  | name =>
    simp [opened, Opening.kinds] at h hkind
    obtain ⟨rfl, rfl⟩ := h
    exact .name hkind
  | number =>
    simp [opened, Opening.kinds] at h hkind
    obtain ⟨rfl, rfl⟩ := h
    exact .number hkind
  | string =>
    simp [opened, Opening.kinds] at h hkind
    exact strings_reads (by simpa [TokenStream.atLiteral] using hkind) h
  | constant value =>
    simp [opened] at h
    obtain ⟨rfl, rfl⟩ := h
    exact .constant hopening
  | unary op =>
    simp [opened] at h
    obtain ⟨e, he, rfl⟩ := h
    exact .unary hopening (hexpr op.power he)
  | starred =>
    simp [opened, Opening.kinds] at h hkind
    obtain ⟨e, he, rfl⟩ := h
    exact .starred hkind (hexpr .relational he)
  | await =>
    simp [opened, Opening.kinds] at h hkind
    obtain ⟨e, he, rfl⟩ := h
    exact .await hkind (hexpr .exponent he)
  | yield =>
    simp [opened, Opening.kinds] at h hkind
    exact afterYield_reads hexpr hkind h
  | lambda =>
    simp [opened, Opening.kinds] at h hkind
    obtain ⟨parameters, u, hparameters, hcolon, body, hbody, rfl⟩ := h
    exact .lambda hkind (untilClosed_readsAs (parameter_readsAs hexpr false) hparameters) hcolon
      (hexpr .default hbody)
  | parens =>
    simp [opened, Opening.kinds] at h hkind
    exact afterParen_reads hexpr hkind h
  | brackets =>
    simp [opened, Opening.kinds] at h hkind
    exact afterBracket_reads hexpr hkind h
  | braces =>
    simp [opened, Opening.kinds] at h hkind
    exact afterBrace_reads hexpr hkind h

/-! ## Continuations -/

omit hexpr in
/-- An operator that compares follows the grammar. -/
theorem compareOp_readsAs : ReadsAs compareOp (.one ∘ .compareOp) := by
  intro s op t h
  rw [compareOp, kind_bind] at h
  generalize hkind : s.kind = kind at h
  split at h
  case h_8 =>
    simp at h
    obtain ⟨hin, rfl, rfl⟩ := h
    exact .notIn hkind hin
  case h_9 =>
    simp at h
    obtain ⟨hnot, rfl, rfl⟩ | ⟨hnot, rfl, rfl⟩ := h
    · exact .isNot hkind hnot
    · exact .is hkind hnot
  case h_10 => simp at h
  -- The others are one mark or word each.
  all_goals
    simp at h
    obtain ⟨rfl, rfl⟩ := h
    exact .compareOp (by rw [hkind]; rfl)

/-- A comparison with the operand after its operator follows the grammar. -/
theorem link_readsAs : ReadsAs (link expr) (.one ∘ .link) := by
  intro s l t h
  simp [link] at h
  obtain ⟨op, u, hop, e, he, rfl⟩ := h
  exact .link (compareOp_readsAs hop) (hexpr .relational he)

/-- An argument follows the grammar. -/
theorem argument_readsAs : ReadsAs (argument expr) (.one ∘ .argument) := by
  intro s a t h
  simp [argument] at h
  obtain ⟨hstar, e, he, rfl⟩ | ⟨-, ⟨hkeyword, e, he, rfl⟩ | ⟨hkeyword, e, u, he, h⟩⟩ := h
  · exact .unpackedArgument hstar (hexpr .default he)
  · exact .keywordArgument (by simpa [TokenStream.atKeyword] using hkeyword) (hexpr .default he)
  · have hkeyword : ¬s.atKeyword := by simpa [TokenStream.atKeyword] using hkeyword
    obtain ⟨hclause, clauses, hclauses, rfl⟩ | ⟨hclause, rfl, rfl⟩ := h
    · exact .generatorArgument hkeyword (hexpr .default he) hclause
        (clausesOf_readsAs hexpr hclauses)
    · exact .argument hkeyword (hexpr .default he) (by rw [hclause]; decide)

/-- A part of a slice follows the grammar, if it is there. -/
theorem sliceBound?_readsAs : ReadsAs (sliceBound? expr) (.one ∘ .sliceBound) := by
  intro s e t h
  simp [sliceBound?] at h
  obtain ⟨hend, rfl, rfl⟩ | ⟨hend, e, he, rfl⟩ := h
  · exact .unbounded hend
  · exact .sliceBound (by rw [hend]; decide) (hexpr .default he)

/-- A slice follows the grammar from its colon on. -/
theorem sliceAfter_readsAs (lower : Option Expr) :
    ReadsAs (sliceAfter expr lower) (.one ∘ .slice lower) := by
  intro s e t h
  simp [sliceAfter] at h
  obtain ⟨hcolon, upper, u, hupper, ⟨hstep, step, h, rfl⟩ | ⟨hstep, rfl, rfl⟩⟩ := h
  · exact .steppedSlice hcolon (sliceBound?_readsAs hexpr hupper) hstep
      (sliceBound?_readsAs hexpr h)
  · exact .slice hcolon (sliceBound?_readsAs hexpr hupper) hstep

/-- An index follows the grammar, and so does a slice. -/
theorem subscriptItem_readsAs : ReadsAs (subscriptItem expr) (.one ∘ .subscriptItem) := by
  intro s e t h
  simp [subscriptItem] at h
  obtain ⟨hcolon, h⟩ | ⟨-, lower, u, hlower, ⟨hcolon, h⟩ | ⟨hcolon, rfl, rfl⟩⟩ := h
  · exact .sliceItem hcolon (sliceAfter_readsAs hexpr none h)
  · exact .boundedSliceItem (hexpr .default hlower) hcolon (sliceAfter_readsAs hexpr _ h)
  · exact .subscriptItem (hexpr .default hlower) hcolon

/-- What stands between brackets continues an expression. -/
theorem subscriptIndex_reads {s t : TokenStream} {left index : Expr}
    (hkind : s.kind = .openBracket)
    (h : subscriptIndex expr s.current.span s.tail = .ok (index, t)) :
    ReadsExpr s (.one (.continuation left (.subscript (left.span.through t.last) left index)))
      t := by
  simp [subscriptIndex] at h
  obtain ⟨first, u, hfirst, others, v, hothers, hclose, h⟩ := h
  have hfirst := subscriptItem_readsAs hexpr hfirst
  have hothers := afterCommas_readsAs (subscriptItem_readsAs hexpr) hothers
  obtain ⟨hcomma, rfl, rfl⟩ | ⟨hcomma, rfl, rfl⟩ := h
  · exact .indexTuple hkind hfirst hcomma hothers hclose
  · -- Without a comma nothing more is read.
    obtain rfl := hothers.eq_of_ne_comma hcomma
    exact .index hkind hfirst hclose

/-- The expression that a token continues. -/
theorem continued_reads {s t : TokenStream} {continuation : Continuation} {left e : Expr}
    (hcontinuation : s.kind.continuation? = some continuation)
    (h : continued expr left continuation s = .ok (e, t)) :
    ReadsExpr s (.one (.continuation left e)) t := by
  have hkind := TokenKind.continuation?_cases hcontinuation
  cases continuation with
  | named =>
    simp [continued] at h
    obtain ⟨hname, e, he, rfl⟩ := h
    exact .named hkind hname (hexpr .walrus he)
  | conditional =>
    simp [continued] at h
    obtain ⟨test, u, htest, helse, orelse, horelse, rfl⟩ := h
    exact .conditional hkind (hexpr .ternary htest) helse (hexpr .default horelse)
  | boolean op =>
    simp [continued] at h
    obtain ⟨right, hright, rfl⟩ := h
    exact .boolean hcontinuation (hexpr op.power hright)
  | comparison =>
    simp [continued] at h
    obtain ⟨op, first, u, hfirst, others, hothers, rfl⟩ := h
    exact .comparison (link_readsAs hexpr hfirst)
      (manyWhile_readsAs (fun _ h => link_readsAs hexpr h) hothers)
  -- `**` binds its right operand by another rule than the other operators
  | binary op =>
    by_cases hop : op = .pow
    · subst hop
      simp [continued] at h
      obtain ⟨right, hright, rfl⟩ := h
      exact .pow (TokenKind.eq_doubleStar_of_binaryOp? hkind) (hexpr .multiplicative hright)
    · rw [continued] at h
      · simp at h
        obtain ⟨right, hright, rfl⟩ := h
        exact .binary hkind hop (hexpr op.power hright)
      · exact hop
  | call =>
    simp [continued] at h
    obtain ⟨arguments, u, harguments, hclose, rfl, rfl⟩ := h
    exact .call hkind (untilClosed_readsAs (argument_readsAs hexpr) harguments) hclose
  | subscript =>
    simp [continued] at h
    obtain ⟨index, hindex, rfl⟩ := h
    exact subscriptIndex_reads hexpr hkind hindex
  | member =>
    simp [continued] at h
    obtain ⟨hname, rfl, rfl⟩ := h
    exact .member hkind hname

/-! ## Expressions -/

/-- With a way to read parts by the grammar, an expression follows it. -/
theorem exprOf_readsAs (power : BindingPower) :
    ReadsAs (exprOf expr power) (.one ∘ .expr power) := by
  intro s e t h
  rw [exprOf, kind_bind] at h
  cases hopening : s.kind.opening? with
  | none =>
    rw [hopening] at h
    exact absurd h unexpected_ne_ok
  | some opening =>
    rw [hopening] at h
    obtain ⟨first, u, hfirst, h⟩ := bind_eq_ok.1 h
    refine .expr (opened_reads hexpr hopening hfirst) ?_
    refine loop_induction (P := fun first u e t => ReadsExpr u (.one (.chain power first e)) t)
      ?_ ?_ h
    · intro left s e t h
      rw [kind_bind, ite_eq_ok, pure_eq_ok] at h
      obtain ⟨-, h⟩ | ⟨hpower, hleft, rfl⟩ := h
      · cases hcontinuation : s.kind.continuation? with
        | none => simp [hcontinuation] at h
        | some continuation => simp [hcontinuation] at h
      · obtain rfl := Sum.inr.inj hleft
        exact .chainEnd hpower
    · intro left s next t e u h hchain
      rw [kind_bind, ite_eq_ok, pure_eq_ok] at h
      obtain ⟨hpower, h⟩ | ⟨-, hleft, -⟩ := h
      · cases hcontinuation : s.kind.continuation? with
        | none => simp [hcontinuation] at h
        | some continuation =>
          simp [hcontinuation] at h
          exact .chainNext hpower (continued_reads hexpr hcontinuation h) hchain
      · cases hleft

end Rules

/-- An expression follows the grammar, whatever the bound on its depth. -/
theorem exprWithin_readsAs (depth : Nat) (power : BindingPower) :
    ReadsAs (exprWithin depth power) (.one ∘ .expr power) := by
  induction depth generalizing power with
  | zero =>
    intro s e t h
    exact absurd h throw_ne_ok
  | succ depth ih =>
    exact exprOf_readsAs ih power

/-- An expression is read by the rules. -/
theorem expr_readsAs (power : BindingPower) : ReadsAs (expr power) (.one ∘ .expr power) := by
  intro s e t h
  rw [expr, get_bind] at h
  exact exprWithin_readsAs s.fuel power h

/-- A tuple without parentheses follows the grammar, whatever its depth. -/
theorem exprList_readsAs (power : BindingPower) :
    ReadsAs (exprList power) (.one ∘ .exprList power) :=
  exprListOf_readsAs expr_readsAs power

/-- Parameters up to a closing token follow the grammar. -/
theorem parameters_readsAs (closing : TokenKind) (annotations : Bool) :
    ReadsAs (parameters closing annotations)
      (fun ps => .untilClosed closing (ps.map (.parameter annotations))) :=
  untilClosed_readsAs (parameter_readsAs expr_readsAs annotations)

end Parse
end NoteCheck.Code
