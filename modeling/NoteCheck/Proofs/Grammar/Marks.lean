/-
# Statements from marks

What is read where the marks of the tokens are known: names, lists with commas between their
items, and the forms of statements, over what is read of their parts. The results are known up to
columns, as the marks are.
-/
import NoteCheck.Proofs.Grammar.Spans
import NoteCheck.Proofs.Grammar.TermParse
import NoteCheck.Proofs.Layout.Lines

namespace NoteCheck.Code

/-! ## Spans without columns -/

namespace Span

/-- A part of a text of which only the line is known on which it begins. -/
def ofLine (line : Nat) : Span := ⟨⟨line, 0⟩, ⟨0, 0⟩⟩

/-- A part of a text without its columns and its end. -/
def onLine (s : Span) : Span := ofLine s.line

@[simp] theorem onLine_through (s t : Span) : (s.through t).onLine = s.onLine := rfl

@[simp] theorem onLine_onLine (s : Span) : s.onLine.onLine = s.onLine := rfl

@[simp] theorem onLine_ofLine (line : Nat) : (ofLine line).onLine = ofLine line := rfl

@[simp] theorem line_onLine (s : Span) : s.onLine.line = s.line := rfl

end Span

/-! ## Marks in a row -/

namespace Mark

/-- The mark of a name. -/
def name (line : Nat) (word : String) : Mark := ⟨.identifier, word, line⟩

/-- The marks of items after one, each after a comma. -/
def afterFirst (line : Nat) (parts : List (List Mark)) : List Mark :=
  parts.flatMap (⟨.comma, ",", line⟩ :: ·)

/-- The marks of items with commas between them. -/
def separated (line : Nat) : List (List Mark) → List Mark
  | [] => []
  | part :: parts => part ++ afterFirst line parts

/-- The marks of an indented block after the head of a statement. -/
def indented (line : Nat) (marks : List Mark) : List Mark :=
  ⟨.colon, ":", line⟩ :: .layout .newline :: .layout .indent :: (marks ++ [.layout .dedent])

end Mark

/-! ## Streams with known marks -/

/-- A token that is no layout is known from its mark: kind, text and line. -/
theorem Token.of_mark_eq {t : Token} {kind : TokenKind} {text : String} {line : Nat}
    (h : t.mark = ⟨kind, text, line⟩) (hlayout : kind.isLayout = false)
    (hend : kind ≠ .endOfFile) : t.kind = kind ∧ t.text = text ∧ t.span.line = line := by
  have hkind : t.kind = kind := by
    rw [← t.kind_mark, h]
  rw [mark_eq (hkind ▸ hlayout) (hkind ▸ hend)] at h
  obtain ⟨-, htext, hline⟩ := Mark.mk.inj h
  exact ⟨hkind, htext, hline⟩

namespace TokenStream

variable {s t u : TokenStream} {m : Mark} {l more : List Mark}

/-- A stream goes through some marks up to another stream. The last token is not among them. -/
def Goes : List Mark → TokenStream → TokenStream → Prop
  | [], s, t => s = t
  | m :: l, s, t =>
    s.current.mark = m ∧ s.kind ≠ .endOfFile ∧ s.ahead ≠ [] ∧ Goes l s.tail t

/-- A stream goes through two runs of marks one after the other. -/
theorem goes_append : Goes (l ++ more) s u ↔ ∃ t, Goes l s t ∧ Goes more t u := by
  induction l generalizing s with
  | nil => simp [Goes]
  | cons m l ih => simp [Goes, ih, and_assoc]

/-- The current token of a stream is the first that it goes through. -/
theorem Goes.kind_eq (h : Goes (m :: l) s t) : s.kind = m.kind := by
  rw [← h.1, Token.kind_mark]
  rfl

/-- A stream goes through its current token. -/
theorem Goes.head (h : Goes (m :: l) s t) : Goes [m] s s.tail := ⟨h.1, h.2.1, h.2.2.1, rfl⟩

/-- The rest of a stream goes through the marks after the first. -/
theorem Goes.tail (h : Goes (m :: l) s t) : Goes l s.tail t := h.2.2.2

/-- Reading a token that is not the last one takes it. -/
theorem fuel_tail (hkind : s.kind ≠ .endOfFile) (hahead : s.ahead ≠ []) :
    s.fuel = s.tail.fuel + 1 := by
  obtain ⟨next, ahead, hnext⟩ := List.exists_cons_of_ne_nil hahead
  rw [tail_eq_of_ahead hkind hnext, fuel, hnext]
  rfl

/-- A stream has a token for each mark that it goes through. -/
theorem Goes.fuel_eq (h : Goes l s t) : s.fuel = t.fuel + l.length := by
  induction l generalizing s with
  | nil =>
    obtain rfl : s = t := h
    rfl
  | cons m l ih =>
    obtain ⟨-, hkind, hahead, hrest⟩ := h
    rw [fuel_tail hkind hahead, ih hrest]
    rfl

/-- A stream that goes through a mark has fewer tokens left. -/
theorem Goes.fuel_lt (h : Goes (m :: l) s t) : t.fuel < s.fuel := by
  have hfuel := h.fuel_eq
  rw [List.length_cons] at hfuel
  omega

/-- A stream goes through the marks of its tokens as far as more follow. -/
theorem exists_goes {found others : List Token} (h : s.current :: s.ahead = found ++ others)
    (hothers : others ≠ []) (hend : ∀ t ∈ found, t.kind ≠ .endOfFile) :
    ∃ t, Goes (found.map Token.mark) s t ∧ t.current :: t.ahead = others := by
  induction found generalizing s with
  | nil => exact ⟨s, rfl, h⟩
  | cons first found ih =>
    obtain ⟨hfirst, hfound⟩ := List.forall_mem_cons.1 hend
    obtain ⟨rfl, hahead⟩ := List.cons.inj h
    have hkind : s.kind ≠ .endOfFile := hfirst
    have hne : s.ahead ≠ [] := by
      rw [hahead]
      exact List.append_ne_nil_of_right_ne_nil found hothers
    obtain ⟨next, ahead, hnext⟩ := List.exists_cons_of_ne_nil hne
    have htail := tail_eq_of_ahead hkind hnext
    obtain ⟨t, hgoes, ht⟩ := ih (s := s.tail) (by rw [htail]; exact hnext.symm.trans hahead) hfound
    exact ⟨t, ⟨rfl, hkind, hne, hgoes⟩, ht⟩

end TokenStream

namespace Parse

variable {s t u v : TokenStream} {line : Nat}

/-- A reading comes to a result that is known up to a projection. -/
def Yields {α β : Type} (p : Parse α) (f : α → β) (s : TokenStream) (b : β) (t : TokenStream) :
    Prop :=
  ∃ a, p s = .ok (a, t) ∧ f a = b

/-- What is read within as many levels as there are tokens left is read as an expression. -/
theorem Yields.expr {β : Type} {f : Expr → β} {b : β} {power : BindingPower}
    (h : Yields (exprWithin s.fuel power) f s b t) : Yields (expr power) f s b t := by
  rwa [Yields, Parse.expr, get_bind]

/-! ## Names -/

/-- A name is read up to a token that does not bind it. -/
theorem exprWithin_name {word : String} {n : Nat} {power : BindingPower}
    (h : s.Goes [Mark.name line word] t) (hends : ¬power < t.kind.bindingPower) :
    Yields (exprWithin (n + 1) power) (Expr.mapSpan Span.onLine) s
      (.name (.ofLine line) word) t := by
  obtain ⟨hmark, -, -, rfl⟩ := h
  obtain ⟨hkind, htext, hline⟩ := Token.of_mark_eq hmark rfl (by decide)
  have hopening : s.kind.opening? = some .name := congrArg TokenKind.opening? hkind
  have hleads : Leads (exprWithin n) power s (.name (s.current.span.through s.tail.last)
      s.current.text) s.tail := leads_of_opened hopening rfl
  refine ⟨_, hleads.exprOf_eq_ok hends, ?_⟩
  rw [Expr.mapSpan, htext, ← hline]
  rfl

/-! ## Lists with commas -/

section Lists

variable {α β : Type} {item : Parse α} {f : α → β} {closing : TokenKind}
  {parts : List (List Mark)} {results : List β}

/-- An item is read from some marks, where a comma or the closing token follows. -/
structure ReadsItemAs (item : Parse α) (f : α → β) (closing : TokenKind) (part : List Mark)
    (result : β) : Prop where
  begins : ∃ m rest, part = m :: rest ∧ m.kind ≠ closing
  reads : ∀ {s t}, s.Goes part t → t.kind = .comma ∨ t.kind = closing → Yields item f s result t

/-- Where items may go on stands a comma or the closing token. -/
theorem kind_of_afterFirst (hs : s.Goes (Mark.afterFirst line parts) t) (ht : t.kind = closing) :
    s.kind = .comma ∨ s.kind = closing := by
  cases parts with
  | nil =>
    obtain rfl : s = t := hs
    exact .inr ht
  | cons => exact .inl hs.kind_eq

/-- An item is read up to a comma or the closing token, and it takes a token. -/
theorem ReadsItemAs.exists_eq_ok {part : List Mark} {result : β}
    (h : ReadsItemAs item f closing part result) (hs : s.Goes part t)
    (ht : t.kind = .comma ∨ t.kind = closing) :
    s.kind ≠ closing ∧ t.fuel < s.fuel ∧ Yields item f s result t := by
  obtain ⟨m, rest, rfl, hm⟩ := h.begins
  exact ⟨hs.kind_eq ▸ hm, hs.fuel_lt, h.reads hs ht⟩

/-- Items are read after one that has been read. -/
theorem exists_afterItem (h : List.Forall₂ (ReadsItemAs item f closing) parts results) :
    ∀ {s t}, s.Goes (Mark.afterFirst line parts) t → t.kind = closing →
      ∃ found, AfterItem item closing s found t ∧ found.map f = results := by
  induction h with
  | nil =>
    rintro s t rfl ht
    exact ⟨[], .done ht, rfl⟩
  | @cons part result parts results hpart _ ih =>
    intro s t hs ht
    have hcomma : s.kind = .comma := hs.kind_eq
    have hless := TokenStream.fuel_tail hs.2.1 hs.2.2.1
    obtain ⟨v, hv, hmore⟩ := TokenStream.goes_append.1 hs.tail
    obtain ⟨hkind, hfuel, a, hitem, ha⟩ := hpart.exists_eq_ok hv (kind_of_afterFirst hmore ht)
    obtain ⟨found, hfound, hresults⟩ := ih hmore ht
    refine ⟨a :: found, .next hcomma (by omega) hkind hitem hfuel hfound, ?_⟩
    rw [List.map_cons, ha, hresults]

/-- Items with commas between them are read up to the closing token. -/
theorem untilClosed_yields (hclosing : closing ≠ .comma)
    (h : List.Forall₂ (ReadsItemAs item f closing) parts results)
    (hs : s.Goes (Mark.separated line parts) t) (ht : t.kind = closing) :
    Yields (untilClosed closing item) (List.map f) s results t := by
  cases h with
  | nil =>
    obtain rfl : s = t := hs
    exact ⟨[], untilClosed_of_closing ht, rfl⟩
  | @cons part result parts results hpart hparts =>
    obtain ⟨v, hv, hmore⟩ := TokenStream.goes_append.1 hs
    obtain ⟨hkind, hfuel, a, hitem, ha⟩ := hpart.exists_eq_ok hv (kind_of_afterFirst hmore ht)
    obtain ⟨found, hfound, hresults⟩ := exists_afterItem hparts hmore ht
    refine ⟨a :: found, hfound.untilClosed_eq_ok hclosing hkind hitem hfuel, ?_⟩
    rw [List.map_cons, ha, hresults]

end Lists

/-! ## Statements -/

section Statements

variable {p : Parse Stmt} {e : Expr} {body : List Stmt}

/-- A return of a value. -/
theorem stmtOf_ret (h : s.Goes [⟨.kwReturn, "return", line⟩] v)
    (hvalue : Yields (expr .default) (Expr.mapSpan Span.onLine) v e u) (hu : u.kind = .newline) :
    Yields (stmtOf p) (Stmt.mapSpan Span.onLine) s (.ret (.ofLine line) (some e)) u.tail := by
  obtain ⟨hmark, -, -, rfl⟩ := h
  obtain ⟨hkind, -, hline⟩ := Token.of_mark_eq hmark rfl (by decide)
  obtain ⟨a, hread, rfl⟩ := hvalue
  have hs : s.kind = .kwReturn := hkind
  have hlist := exprList_eq_ok hread (by rw [hu]; decide)
  have hopens := opensExpr_of_exprWithin hread
  have hstmt : lineStmt s = .ok (.ret (s.current.span.through u.last) (some a), u) := by
    rw [lineStmt, kind_bind, hs]
    show (advance >>= _) s = _
    rw [advance_bind, kind_bind, if_pos hopens]
    exact bind_eq_ok.2 ⟨some a, u, map_eq_ok.2 ⟨a, hlist, rfl⟩, rfl⟩
  refine ⟨.ret (s.current.span.through u.last) (some a), ?_, ?_⟩
  · rw [stmtOf, get_bind, kind_bind, hs]
    exact bind_eq_ok.2 ⟨_, u, hstmt, bind_eq_ok.2 ⟨true, u.tail, endLine_eq_ok hu, rfl⟩⟩
  · rw [Stmt.mapSpan, Span.onLine_through, Span.onLine, hline]
    rfl

/-- An assignment to a name. -/
theorem stmtOf_assign {word : String} (h : s.Goes [Mark.name line word, ⟨.assign, "=", line⟩] v)
    (hvalue : Yields (expr .default) (Expr.mapSpan Span.onLine) v e u) (hu : u.kind = .newline) :
    Yields (stmtOf p) (Stmt.mapSpan Span.onLine) s
      (.assign (.ofLine line) [.name (.ofLine line) word] e) u.tail := by
  have hassign : s.tail.kind = .assign := h.tail.kind_eq
  obtain ⟨-, -, -, rfl⟩ := h.tail
  have hends : ¬BindingPower.default < s.tail.kind.bindingPower := by
    rw [hassign]
    decide
  obtain ⟨target, htarget, hname⟩ :=
    exprWithin_name (n := s.ahead.length) h.head hends
  obtain ⟨a, hread, rfl⟩ := hvalue
  obtain ⟨hblock, hline⟩ := TokenKind.forms_of_opensExpr (opensExpr_of_exprWithin htarget)
  have hlist := exprList_eq_ok (s := s) htarget (by rw [hassign]; decide)
  -- no further `=` comes, as the value is followed by the end of the line
  have hvalues : assigned target s.tail = .ok (([target], a), u) := by
    rw [assigned, advance_bind]
    refine bind_eq_ok.2 ⟨a, u, exprList_eq_ok hread (by rw [hu]; decide), ?_⟩
    refine Runs.loop_eq_ok (.last (skip?_bind_eq_ok.2 (.inr ⟨by rw [hu]; decide, rfl⟩)))
  have hafter : afterExpr target s.tail =
      .ok (.assign (target.span.through u.last) [target] a, u) := by
    rw [afterExpr, kind_bind, hassign]
    exact bind_eq_ok.2 ⟨_, u, hvalues, rfl⟩
  have hstmt : lineStmt s = .ok (.assign (target.span.through u.last) [target] a, u) := by
    rw [lineStmt, kind_bind, hline]
    exact bind_eq_ok.2 ⟨target, s.tail, hlist, hafter⟩
  refine ⟨.assign (target.span.through u.last) [target] a, ?_, ?_⟩
  · rw [stmtOf, get_bind, kind_bind, hblock]
    exact bind_eq_ok.2 ⟨_, u, hstmt, bind_eq_ok.2 ⟨true, u.tail, endLine_eq_ok hu, rfl⟩⟩
  · have hspan : target.span.onLine = .ofLine line := by
      rw [← Expr.span_mapSpan Span.onLine, hname]
      rfl
    rw [Stmt.mapSpan, List.map_singleton, hname, Span.onLine_through, hspan]

/-- Tokens that end no line are passed over. -/
theorem skipUntil_endsLine {marks : List Mark} (h : s.Goes marks u)
    (hmarks : ∀ m ∈ marks, endsLine m.kind = false) (hu : endsLine u.kind = true) :
    skipUntil endsLine s = .ok ((), u) := by
  suffices hruns : Runs (fun _ => do
      if endsLine (← kind) then return .inr ()
      else
        let _ ← advance
        return .inl ()) () s () u from hruns.loop_eq_ok
  induction marks generalizing s with
  | nil =>
    obtain rfl : s = u := h
    refine .last ?_
    rw [kind_bind, if_pos hu]
    rfl
  | cons m marks ih =>
    obtain ⟨hm, hmarks⟩ := List.forall_mem_cons.1 hmarks
    refine .next (c := ()) (t := s.tail) ?_ h.head.fuel_lt (ih h.tail hmarks)
    rw [kind_bind, h.kind_eq, hm]
    rfl

/-- A statement on a line of its own whose contents are passed over. -/
theorem stmtOf_skipped {kind : TokenKind} {word : String} {form : SkippedForm} {marks : List Mark}
    (hform : kind.lineForm? = some (.skipped form)) (h : s.Goes (⟨kind, word, line⟩ :: marks) u)
    (hmarks : ∀ m ∈ marks, endsLine m.kind = false) (hu : u.kind = .newline) :
    Yields (stmtOf p) (Stmt.mapSpan Span.onLine) s (.skipped (.ofLine line) form) u.tail := by
  obtain ⟨hblock, hlayout, hend⟩ : kind.blockForm? = none ∧ kind.isLayout = false ∧
      kind ≠ .endOfFile := by
    cases kind <;> cases hform <;> exact ⟨rfl, rfl, nofun⟩
  obtain ⟨hkind, -, hline⟩ := Token.of_mark_eq h.1 hlayout hend
  have hskip := skipUntil_endsLine h.tail hmarks (by rw [hu]; rfl)
  have hs : s.kind = kind := hkind
  have hstmt : lineStmt s = .ok (.skipped (s.current.span.through u.last) form, u) := by
    rw [lineStmt, kind_bind, hs, hform]
    show (advance >>= _) s = _
    rw [advance_bind]
    exact bind_eq_ok.2 ⟨(), u, hskip, rfl⟩
  refine ⟨.skipped (s.current.span.through u.last) form, ?_, ?_⟩
  · rw [stmtOf, get_bind, kind_bind, hs, hblock]
    exact bind_eq_ok.2 ⟨_, u, hstmt, bind_eq_ok.2 ⟨true, u.tail, endLine_eq_ok hu, rfl⟩⟩
  · rw [Stmt.mapSpan, Span.onLine_through, Span.onLine, hline]

/-! ## Statements with blocks -/

/-- Statements may go on here in an indented block. -/
def moreInBlock (s : TokenStream) : Bool := s.kind != .dedent && s.kind != .endOfFile

/-- An indented block. -/
theorem suiteOf_yields {marks : List Mark} (h : s.Goes (Mark.indented line marks) t)
    (hbody : ∀ {v w}, v.Goes marks w → v.fuel < s.fuel → w.kind = .dedent →
      Yields (manyWhile moreInBlock p) (List.map (Stmt.mapSpan Span.onLine)) v body w) :
    Yields (suiteOf p) (List.map (Stmt.mapSpan Span.onLine)) s body t := by
  have hcolon : s.kind = .colon := h.kind_eq
  have hnewline : s.tail.kind = .newline := h.tail.kind_eq
  have hindent : s.tail.tail.kind = .indent := h.tail.tail.kind_eq
  have hfuel := h.head.fuel_eq
  have hfuel' := h.tail.head.fuel_eq
  have hfuel'' := h.tail.tail.head.fuel_eq
  obtain ⟨w, hmarks, hlast⟩ := TokenStream.goes_append.1 h.tail.tail.tail
  have hdedent : w.kind = .dedent := hlast.kind_eq
  obtain ⟨found, hread, hfound⟩ := hbody hmarks (by simp at *; omega) hdedent
  obtain ⟨-, -, -, rfl⟩ := hlast
  refine ⟨found, expect_bind_eq_ok.2 ⟨hcolon, skip?_bind_eq_ok.2 (.inl ⟨hnewline, ?_⟩)⟩, hfound⟩
  rw [if_pos rfl, expect_bind_eq_ok]
  exact ⟨hindent, bind_eq_ok.2 ⟨found, w, hread, expect_bind_eq_ok.2 ⟨hdedent, rfl⟩⟩⟩

/-- The reader of what a function returns. -/
def returnsOf : Parse (Option Expr) := do
  if ← skip? .arrow then some <$> expr .default else pure none

/-- A function without decorators. -/
theorem stmtOf_function {name : String} {parameters : List (Parameter Expr)}
    {returns : Option Expr} {a b c : TokenStream}
    (h : s.Goes [⟨.kwDef, "def", line⟩, Mark.name line name, ⟨.openParen, "(", line⟩] a)
    (hparameters : Yields (Parse.parameters .closeParen true)
      (List.map (Parameter.mapSpan Span.onLine)) a parameters b)
    (hclose : b.Goes [⟨.closeParen, ")", line⟩] c)
    (hreturns : Yields returnsOf (Option.map (Expr.mapSpan Span.onLine)) c returns u)
    (hbody : Yields (suiteOf p) (List.map (Stmt.mapSpan Span.onLine)) u body t) :
    Yields (stmtOf p) (Stmt.mapSpan Span.onLine) s
      (.function (.ofLine line) name parameters returns [] false body) t := by
  obtain ⟨hdef, htext, hline⟩ := Token.of_mark_eq h.1 rfl (by decide)
  obtain ⟨hname, hword, -⟩ := Token.of_mark_eq h.tail.1 rfl (by decide)
  have hopen : s.tail.tail.kind = .openParen := h.tail.tail.kind_eq
  have hcloses : b.kind = .closeParen := hclose.kind_eq
  obtain ⟨-, -, -, rfl⟩ := h.tail.tail
  obtain ⟨-, -, -, rfl⟩ := hclose
  obtain ⟨ps, hps, rfl⟩ := hparameters
  obtain ⟨r, hr, rfl⟩ := hreturns
  obtain ⟨found, hfound, rfl⟩ := hbody
  have hkind : s.kind = .kwDef := hdef
  refine ⟨.function (s.current.span.through t.last) s.tail.current.text ps r [] false found, ?_, ?_⟩
  · rw [stmtOf, get_bind, kind_bind, hkind]
    refine expect_bind_eq_ok.2 ⟨hkind, expect_bind_eq_ok.2 ⟨hname, expect_bind_eq_ok.2 ⟨hopen, ?_⟩⟩⟩
    refine bind_eq_ok.2 ⟨ps, b, hps, expect_bind_eq_ok.2 ⟨hcloses, ?_⟩⟩
    obtain ⟨isArrow, w, hskip, hr⟩ := bind_eq_ok.1 hr
    refine bind_eq_ok.2 ⟨isArrow, w, hskip, ?_⟩
    cases isArrow with
    | true => exact bind_eq_ok.2 ⟨r, u, hr, bind_eq_ok.2 ⟨found, t, hfound, rfl⟩⟩
    | false => exact bind_eq_ok.2 ⟨r, u, hr, bind_eq_ok.2 ⟨found, t, hfound, rfl⟩⟩
  · rw [Stmt.mapSpan, Stmt.mapSpanIn_eq_map, Span.onLine_through, hword, Span.onLine, hline]
    rfl

/-- A condition after its first word, and what it guards. -/
theorem guarded_yields {kind : TokenKind} {word : String}
    (h : s.Goes [⟨kind, word, line⟩] v) (hkind : kind.isLayout = false) (hend : kind ≠ .endOfFile)
    (htest : Yields (expr .default) (Expr.mapSpan Span.onLine) v e u)
    (hbody : Yields (suiteOf p) (List.map (Stmt.mapSpan Span.onLine)) u body t) :
    ∃ g, guarded p s = .ok (g, t) ∧ g.start.onLine = .ofLine line ∧
      g.test.mapSpan Span.onLine = e ∧ g.body.map (Stmt.mapSpan Span.onLine) = body := by
  obtain ⟨-, -, hline⟩ := Token.of_mark_eq h.1 hkind hend
  obtain ⟨-, -, -, rfl⟩ := h
  obtain ⟨test, htest, rfl⟩ := htest
  obtain ⟨found, hfound, rfl⟩ := hbody
  refine ⟨⟨s.current.span, test, found⟩, ?_, congrArg Span.ofLine hline, rfl, rfl⟩
  rw [guarded, advance_bind]
  exact bind_eq_ok.2 ⟨test, u, htest, bind_eq_ok.2 ⟨found, t, hfound, rfl⟩⟩

end Statements

end Parse

end NoteCheck.Code
