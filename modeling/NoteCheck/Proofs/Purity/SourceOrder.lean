/-
# Violations in the order of the text

What is found in a statement stands between the lines on which the statement begins and ends, on
lines that do not go back. The main statement, `violations_inOrder`, is about the violations of
every text: they are in the order of the text, and each stands on the line of a token or, where the
text has no tokens, of the error.
-/
import NoteCheck.Proofs.Grammar.StmtOrder
import NoteCheck.Proofs.Purity.Search
import NoteCheck.Proofs.Purity.TokenLines

namespace NoteCheck.Code

theorem Position.line_le {p q : Position} (h : p ≤ q) : p.line ≤ q.line := by
  obtain hlt | ⟨heq, -⟩ := le_iff.1 h
  · exact hlt.le
  · exact heq.le

/-- Everything that is looked at in an expression lies in it. -/
theorem Expr.Nested.inside_of_mem_preorder {e : Expr} (h : e.Nested) : ∀ d ∈ e.preorder,
    e.span.start ≤ d.span.start ∧ d.span.start ≤ e.span.stop := by
  induction h with
  | @intro e hencloses _ ih =>
    rw [Expr.preorder_eq]
    refine List.forall_mem_cons.2 ⟨⟨le_rfl, hencloses.ordered⟩, List.forall_mem_flatMap.2 ?_⟩
    intro part hpart d hd
    have hmem := Expr.mem_parts_of_mem_validated hpart
    obtain ⟨hstart, hstop⟩ := hencloses.inside part.span (List.mem_map_of_mem hmem)
    obtain ⟨hle, hge⟩ := ih part hmem d hd
    exact ⟨hstart.trans hle, hge.trans hstop⟩

namespace Purity

/-! ## Lines that do not go back -/

/-- What is found on lines that do not go back, from one line on and up to another. -/
structure Ascending (a : Nat) (found : List Finding) (b : Nat) : Prop where
  le : a ≤ b
  sorted : (found.map Prod.fst).Pairwise (· ≤ ·)
  inside : ∀ x ∈ found, a ≤ x.1 ∧ x.1 ≤ b

namespace Ascending

variable {a b c : Nat} {found more : List Finding}

theorem nil (h : a ≤ b) : Ascending a [] b := ⟨h, .nil, List.forall_mem_nil _⟩

theorem single {line : Nat} {offence : Offence} (ha : a ≤ line) (hb : line ≤ b) :
    Ascending a [(line, offence)] b :=
  ⟨ha.trans hb, List.pairwise_singleton .., List.forall_mem_singleton.2 ⟨ha, hb⟩⟩

theorem mono {a' b' : Nat} (h : Ascending a found b) (ha : a' ≤ a) (hb : b ≤ b') :
    Ascending a' found b' where
  le := ha.trans (h.le.trans hb)
  sorted := h.sorted
  inside x hx := ⟨ha.trans (h.inside x hx).1, (h.inside x hx).2.trans hb⟩

theorem append (h : Ascending a found b) (h' : Ascending b more c) :
    Ascending a (found ++ more) c where
  le := h.le.trans h'.le
  sorted := by
    rw [List.map_append, List.pairwise_append]
    refine ⟨h.sorted, h'.sorted, List.forall_mem_map.2 fun x hx => List.forall_mem_map.2 ?_⟩
    exact fun y hy => (h.inside x hx).2.trans (h'.inside y hy).1
  inside := List.forall_mem_append.2
    ⟨(h.mono le_rfl h'.le).inside, (h'.mono h.le le_rfl).inside⟩

end Ascending

section Statements

variable {a b : Position} {st : Stmt} {body : List Stmt}

/-- What is found in statements one after the other. -/
theorem ascending_flatMap {f : Stmt → List Finding} (h : StmtsInOrder a body b)
    (hf : ∀ st ∈ body, Ascending st.line (f st) st.span.stop.line) :
    Ascending a.line (body.flatMap f) b.line := by
  induction body generalizing a with
  | nil => exact .nil (Position.line_le h.between)
  | cons st body ih =>
    obtain ⟨⟨ha, -, hbetween⟩, hnested⟩ := h
    obtain ⟨hfirst, hothers⟩ := List.forall_mem_cons.1 hf
    rw [List.flatMap_cons]
    exact (hfirst.mono (Position.line_le ha) le_rfl).append
      (ih ⟨hbetween, (List.forall_mem_cons.1 hnested).2⟩ hothers)

/-! ## What is found in a statement -/

theorem ascending_value {e : Expr} (h : e.Nested) :
    Ascending e.line (value e) e.span.stop.line := by
  have hinside := h.inside_of_mem_preorder
  rw [Expr.preorder_eq] at hinside
  unfold value
  split
  · rename_i impure hfirst
    rw [Expr.firstImpure_eq_find?, Expr.preorder_eq] at hfirst
    obtain ⟨hstart, hstop⟩ := hinside impure (List.mem_of_find?_eq_some hfirst)
    exact .single (Position.line_le hstart) (Position.line_le hstop)
  · exact .nil (Position.line_le (hinside e List.mem_cons_self).2)

/-- What is found in an expression directly inside a statement. -/
theorem ascending_valueIn (h : st.Nested) {e : Expr} (he : e ∈ st.exprs) :
    Ascending st.line (value e) st.span.stop.line := by
  obtain ⟨hstart, hstop⟩ :=
    h.encloses.inside e.span (List.mem_append_left _ (List.mem_map_of_mem he))
  cases h with
  | intro _ _ hexprs _ =>
    exact (ascending_value (hexprs e he)).mono (Position.line_le hstart) (Position.line_le hstop)

theorem line_le_stop (h : st.Nested) : st.line ≤ st.span.stop.line :=
  Position.line_le h.encloses.ordered

theorem ascending_returned {s : Span} {e : Option Expr} (h : (Stmt.ret s e).Nested) :
    Ascending s.line (returned e) s.stop.line := by
  cases e with
  | none => exact .nil (line_le_stop h)
  | some e => exact ascending_valueIn h List.mem_cons_self

theorem ascending_assignment {s : Span} {targets : List Expr} {e : Expr}
    (h : (Stmt.assign s targets e).Nested) :
    Ascending s.line (assignment s.line targets e) s.stop.line := by
  have hvalue := ascending_valueIn h (e := e) (List.mem_append_right _ List.mem_cons_self)
  refine Ascending.append (b := s.line) ?_ hvalue
  split
  · split
    · exact .nil le_rfl
    · exact .single le_rfl le_rfl
  · exact .single le_rfl le_rfl

/-- What is found where exactly one return has to stand, after a line. -/
theorem ascending_oneReturn {line : Nat} {offence : Offence} (hline : line ≤ a.line)
    (h : StmtsInOrder a body b) : Ascending line (oneReturn line offence body) b.line := by
  have hle := hline.trans (Position.line_le h.between.le)
  unfold oneReturn
  split
  · rename_i s e
    obtain ⟨⟨hstart, -, hstop⟩, hnested⟩ := h
    exact (ascending_returned (hnested _ List.mem_cons_self)).mono
      (hline.trans (Position.line_le hstart)) (Position.line_le hstop)
  · exact .single le_rfl hle

/-- The body and the else part of a condition. -/
theorem exists_of_branch {s : Span} {test : Expr} {orelse : List Stmt}
    (h : (Stmt.branch s test body orelse).Nested)
    (hordered : (Stmt.branch s test body orelse).Ordered) :
    ∃ c, StmtsInOrder s.start body c ∧ StmtsInOrder c orelse s.stop ∧
      ∀ st ∈ orelse, st.Ordered := by
  obtain ⟨c, hbody, horelse⟩ := InOrder.of_append (h.inOrder hordered)
  cases hordered with
  | intro _ hstmts => exact ⟨c, hbody, horelse, (List.forall_mem_append.1 hstmts).2⟩

theorem ascending_guardElse {orelse : List Stmt} (h : StmtsInOrder a orelse b)
    (hordered : ∀ st ∈ orelse, st.Ordered) : Ascending a.line (guardElse orelse) b.line := by
  fun_induction guardElse orelse generalizing a b with
  | case1 => exact .nil (Position.line_le h.between)
  | case2 s test body orelse ih =>
    obtain ⟨⟨hstart, -, hstop⟩, hnested⟩ := h
    obtain ⟨c, hbody, horelse, hlater⟩ := exists_of_branch (hnested _ List.mem_cons_self)
      (hordered _ List.mem_cons_self)
    exact ((ascending_oneReturn le_rfl hbody).append (ih horelse hlater)).mono
      (Position.line_le hstart) (Position.line_le hstop)
  | case3 first others =>
    obtain ⟨hstart, hfirst⟩ := h.head
    exact (ascending_oneReturn le_rfl hfirst).mono (Position.line_le hstart) le_rfl

theorem ascending_guard {s : Span} {test : Expr} {orelse : List Stmt}
    (h : (Stmt.branch s test body orelse).Nested)
    (hordered : (Stmt.branch s test body orelse).Ordered) :
    Ascending s.line (guard s.line body orelse) s.stop.line := by
  obtain ⟨c, hbody, horelse, hlater⟩ := exists_of_branch h hordered
  exact (ascending_oneReturn le_rfl hbody).append (ascending_guardElse horelse hlater)

theorem ascending_helperStatement (helper : String) (h : st.Nested) :
    Ascending st.line (helperStatement helper st) st.span.stop.line := by
  cases st with
  | assign => exact ascending_assignment h
  | ret => exact ascending_returned h
  | _ => exact .single le_rfl (line_le_stop h)

/-- What is found in a function: its decorators stand on its first line, and then what is found in
its body. -/
theorem ascending_function {s : Span} {name : String} {parameters : List (Parameter Expr)}
    {returns : Option Expr} {decos : List Expr} {isAsync : Bool} {f : Stmt → List Finding}
    (h : (Stmt.function s name parameters returns decos isAsync body).Nested)
    (hordered : (Stmt.function s name parameters returns decos isAsync body).Ordered)
    (hf : ∀ st ∈ body, Ascending st.line (f st) st.span.stop.line) :
    Ascending s.line (decorators s.line name decos ++ body.flatMap f) s.stop.line := by
  refine Ascending.append (b := s.line) ?_ (ascending_flatMap (h.inOrder hordered) hf)
  unfold decorators
  split
  · exact .nil le_rfl
  · exact .single le_rfl le_rfl

theorem ascending_functionStatement (h : st.Nested) (hordered : st.Ordered) :
    Ascending st.line (functionStatement st) st.span.stop.line := by
  cases st with
  | function s name parameters returns decos isAsync body =>
    cases isAsync with
    | false => exact ascending_function h hordered fun d hd =>
        ascending_helperStatement name ((h.inOrder hordered).nested d hd)
    | true => exact .single le_rfl (line_le_stop h)
  | assign => exact ascending_assignment h
  | branch => exact ascending_guard h hordered
  | ret => exact ascending_returned h
  | _ => exact .single le_rfl (line_le_stop h)

theorem ascending_topStatement (h : st.Nested) (hordered : st.Ordered) :
    Ascending st.line (topStatement st) st.span.stop.line := by
  cases st with
  | function s name parameters returns decos isAsync body =>
    cases isAsync with
    | false =>
      refine ascending_function h hordered fun d hd =>
        ascending_functionStatement ((h.inOrder hordered).nested d hd) ?_
      cases hordered with
      | intro _ hstmts => exact hstmts d hd
    | true => exact .single le_rfl (line_le_stop h)
  | _ => exact .single le_rfl (line_le_stop h)

end Statements

/-! ## The whole text -/

/-- What is found in a text does not go back. -/
theorem pairwise_findings (code : String) :
    ((findings code).map Prod.fst).Pairwise (· ≤ ·) := by
  unfold findings
  cases hparse : parse code with
  | error e => exact List.pairwise_singleton ..
  | ok body =>
    obtain ⟨stop, hbody, hordered⟩ := ordered_of_parse hparse
    exact (ascending_flatMap hbody fun st hst =>
      ascending_topStatement (hbody.nested st hst) (hordered st hst)).sorted

/-- What is found in the tokens of a text stands on the lines of some of them. -/
theorem exists_token_of_findings {code : String} {tokens : List Token}
    (htokens : tokenize code = .ok tokens) :
    ∀ found ∈ findings code, ∃ t ∈ tokens, found.1 = t.span.line := by
  obtain ⟨lines, stop, rfl, -, hstop⟩ := exists_lined_of_tokenize htokens
  unfold findings
  cases hparse : parse code with
  | error e =>
    rw [parse, htokens] at hparse
    obtain ⟨t, ht, hposition⟩ := exists_token_of_parseTokens (by simpa using hstop) hparse
    exact List.forall_mem_singleton.2 ⟨t, ht, congrArg Position.line hposition⟩
  | ok body =>
    intro found hfound
    exact forall_line (P := fun line => ∃ t ∈ lines ++ [stop], line = t.span.line) htokens hparse
      (fun t ht _ => ⟨t, List.mem_append_left _ ht, rfl⟩) found hfound

end Purity

/-- The violations of a text are in its order, on the lines of its tokens. A text without tokens has
the violation that stands where it cannot be read on. -/
theorem violations_inOrder (code source : String) :
    ((violations code source).map Violation.line).Pairwise (· ≤ ·) ∧
      ∀ v ∈ violations code source,
        match tokenize code with
        | .ok tokens => ∃ t ∈ tokens, v.line = t.span.line
        | .error e => v.line = e.position.line := by
  constructor
  · rw [violations, List.map_map]
    exact Purity.pairwise_findings code
  · refine List.forall_mem_map.2 fun found hfound => ?_
    cases htokens : tokenize code with
    | ok tokens => exact Purity.exists_token_of_findings htokens found hfound
    | error e =>
      rw [Purity.findings, parse, htokens] at hfound
      obtain rfl := List.mem_singleton.1 hfound
      rfl

end NoteCheck.Code
