/-
# Trees of statements

Trees of functions, conditions, returns and assignments, the marks with which they can be written,
and the statements that are read from them. A condition in an else part may be written as a further
condition. The main statement, `Written.reads`: every way of writing a tree is read as the tree.
-/
import NoteCheck.Proofs.Grammar.Marks

namespace NoteCheck.Code

/-! ## Trees -/

/-- A statement that consists of names, and the line on which it begins. -/
inductive Sketch where
  | function (line : Nat) (name : NameWord) (parameters : List NameWord) (body : List Sketch)
  | branch (line : Nat) (test : NameWord) (body orelse : List Sketch)
  | ret (line : Nat) (value : NameWord)
  | assign (line : Nat) (target value : NameWord)

namespace Sketch

mutual

/-- The statement that a tree shows, without columns. -/
def stmt : Sketch → Stmt
  | function line name parameters body =>
    .function (.ofLine line) name.text
      (parameters.map fun p => ⟨p.text, .positional, none, none⟩) none [] false (stmts body)
  | branch line test body orelse =>
    .branch (.ofLine line) (.name (.ofLine line) test.text) (stmts body) (stmts orelse)
  | ret line value => .ret (.ofLine line) (some (.name (.ofLine line) value.text))
  | assign line target value =>
    .assign (.ofLine line) [.name (.ofLine line) target.text] (.name (.ofLine line) value.text)

/-- The same for trees one after the other. -/
def stmts : List Sketch → List Stmt
  | [] => []
  | s :: rest => stmt s :: stmts rest

end

@[simp] theorem stmts_eq_map (trees : List Sketch) : stmts trees = trees.map stmt := by
  induction trees with
  | nil => rfl
  | cons s trees ih => rw [stmts, ih, List.map_cons]

/-! ## Marks of trees -/

/-- What is written: a statement, the statements of a block, or what follows the part of a condition
that it guards. -/
inductive Part where
  | stmt (tree : Sketch)
  | block (trees : List Sketch)
  | orelse (trees : List Sketch)

/-- The marks of the head of a function, up to the closing parenthesis. -/
def functionMarks (line : Nat) (name : NameWord) (parameters : List NameWord) : List Mark :=
  ⟨.kwDef, "def", line⟩ :: Mark.name line name.text :: ⟨.openParen, "(", line⟩ ::
    (Mark.separated line (parameters.map fun p => [Mark.name line p.text]) ++
      [⟨.closeParen, ")", line⟩])

end Sketch

/-- The marks with which trees can be written. -/
inductive Written : Sketch.Part → List Mark → Prop
  | ret {line value} : Written (.stmt (.ret line value))
      [⟨.kwReturn, "return", line⟩, Mark.name line value.text, .layout .newline]
  | assign {line target value} : Written (.stmt (.assign line target value))
      [Mark.name line target.text, ⟨.assign, "=", line⟩, Mark.name line value.text,
        .layout .newline]
  | function {line name parameters body marks} : Written (.block body) marks →
      Written (.stmt (.function line name parameters body))
        (Sketch.functionMarks line name parameters ++ Mark.indented line marks)
  | branch {line test body orelse marks more} : Written (.block body) marks →
      Written (.orelse orelse) more → Written (.stmt (.branch line test body orelse))
        (⟨.kwIf, "if", line⟩ :: Mark.name line test.text :: (Mark.indented line marks ++ more))
  | noElse : Written (.orelse []) []
  | elif {line test body orelse marks more} : Written (.block body) marks →
      Written (.orelse orelse) more → Written (.orelse [.branch line test body orelse])
        (⟨.kwElif, "elif", line⟩ :: Mark.name line test.text :: (Mark.indented line marks ++ more))
  | else {line body marks} : Written (.block body) marks →
      Written (.orelse body) (⟨.kwElse, "else", line⟩ :: Mark.indented line marks)
  | done : Written (.block []) []
  | next {tree trees marks more} : Written (.stmt tree) marks → Written (.block trees) more →
      Written (.block (tree :: trees)) (marks ++ more)

/-! ## Reading what is written -/

open Parse

variable {s t u v : TokenStream} {line n : Nat}

/-- A name is read as a value before a token that holds nothing. -/
theorem expr_name {word : String} (h : s.Goes [Mark.name line word] t)
    (hends : t.kind.bindingPower = .default) :
    Yields (expr .default) (Expr.mapSpan Span.onLine) s (.name (.ofLine line) word) t := by
  refine Yields.expr (exprWithin_name h ?_)
  rw [hends]
  decide

/-- A name is read as a parameter. -/
theorem readsItemAs_parameter (word : NameWord) :
    ReadsItemAs (parameter expr true) (Parameter.mapSpan Span.onLine) .closeParen
      [Mark.name line word.text] ⟨word.text, .positional, none, none⟩ where
  begins := ⟨_, [], rfl, nofun⟩
  reads := by
    intro s t hs ht
    obtain ⟨hkind, htext, -⟩ := Token.of_mark_eq hs.1 rfl (by decide)
    obtain ⟨-, -, -, rfl⟩ := hs
    have hs : s.kind = .identifier := hkind
    have hskip {mark : TokenKind} (hmark : mark ≠ .comma ∧ mark ≠ .closeParen) :
        exprAfter? expr mark s.tail = .ok (none, s.tail) := by
      refine skip?_bind_eq_ok.2 (.inr ⟨?_, rfl⟩)
      obtain ht | ht := ht
      · exact ht ▸ hmark.1.symm
      · exact ht ▸ hmark.2.symm
    have hname : parameterName s = .ok ((s.current.text, .positional), s.tail) := by
      rw [parameterName, kind_bind, hs]
      rfl
    refine ⟨⟨s.current.text, .positional, none, none⟩, ?_, ?_⟩
    · refine bind_eq_ok.2 ⟨_, _, hname, bind_eq_ok.2 ⟨_, _, hskip (by decide), ?_⟩⟩
      exact bind_eq_ok.2 ⟨_, _, hskip (by decide), rfl⟩
    · rw [htext]
      rfl

/-- The else part of a chain of conditions. -/
def elsePart (p : Parse Stmt) : Parse (List Stmt) := do
  if ← skip? .kwElse then suiteOf p else pure []

/-- What follows the first condition of a chain, as one else part. -/
def chainedRest (stop : Span) (orelse : List Stmt) : List Guarded → List Stmt
  | [] => orelse
  | first :: others => [chained stop orelse first others]

/-- A chain of conditions is its first condition with the others as the else part. -/
theorem chained_eq (stop : Span) (orelse : List Stmt) (first : Guarded) (others : List Guarded) :
    chained stop orelse first others =
      .branch (first.start.through stop) first.test first.body
        (chainedRest stop orelse others) := by
  cases others <;> rfl

/-- A token that begins no further part of a condition. -/
def EndsChain (kind : TokenKind) : Prop := kind ≠ .kwElif ∧ kind ≠ .kwElse

/-- What reading the marks of a part comes to. -/
def Sketch.Part.Reads : Sketch.Part → List Mark → Prop
  | stmt tree, marks => ∀ {s t n}, s.Goes marks t → EndsChain t.kind → s.fuel ≤ n →
      Yields (stmtWithin n) (Stmt.mapSpan Span.onLine) s tree.stmt t
  | block trees, marks => ∀ {s t : TokenStream} {more : TokenStream → Bool} {item : Parse Stmt},
      s.Goes marks t → EndsChain t.kind → (∀ v, moreInBlock v = true → more v = true) →
      more t = false →
      (∀ {v w tree}, v.fuel ≤ s.fuel →
        (∀ n, v.fuel ≤ n → Yields (stmtWithin n) (Stmt.mapSpan Span.onLine) v tree w) →
        Yields item (Stmt.mapSpan Span.onLine) v tree w) →
      ∃ found, Many more item s found t ∧
        found.map (Stmt.mapSpan Span.onLine) = trees.map Sketch.stmt
  | orelse trees, marks => ∀ {s t n}, s.Goes marks t → EndsChain t.kind → s.fuel ≤ n →
      ∃ others v last, Many (·.kind = .kwElif) (guarded (stmtWithin n)) s others v ∧
        elsePart (stmtWithin n) v = .ok (last, t) ∧ ∀ stop,
          (chainedRest stop last others).map (Stmt.mapSpan Span.onLine) = trees.map Sketch.stmt

/-- A block that is written is read as an indented suite. -/
theorem suiteOf_of_reads {trees : List Sketch} {marks : List Mark}
    (h : (Sketch.Part.block trees).Reads marks) (hs : s.Goes (Mark.indented line marks) t)
    (hn : s.fuel ≤ n) : Yields (suiteOf (stmtWithin n)) (List.map (Stmt.mapSpan Span.onLine)) s
      (trees.map Sketch.stmt) t := by
  refine suiteOf_yields hs fun {v w} hv hfuel hw => ?_
  have hends : EndsChain w.kind := by
    rw [hw]
    exact ⟨nofun, nofun⟩
  have hmore : moreInBlock w = false := by
    rw [moreInBlock, hw]
    rfl
  obtain ⟨found, hfound, hmap⟩ := h hv hends (fun _ hmore => hmore) hmore
    fun hle hread => hread n (by omega)
  exact ⟨found, hfound.manyWhile_eq_ok, hmap⟩

/-- A return statement is read. -/
theorem reads_ret {value : NameWord} : (Sketch.Part.stmt (.ret line value)).Reads
    [⟨.kwReturn, "return", line⟩, Mark.name line value.text, .layout .newline] := by
  intro s t n hs _ hn
  obtain ⟨n, rfl⟩ : ∃ m, n = m + 1 := ⟨n - 1, by rw [TokenStream.fuel] at hn; omega⟩
  have hnewline : s.tail.tail.kind = .newline := hs.tail.tail.kind_eq
  obtain ⟨-, -, -, rfl⟩ := hs.tail.tail
  exact stmtOf_ret hs.head (expr_name hs.tail.head (by rw [hnewline]; rfl)) hnewline

/-- An assignment is read. -/
theorem reads_assign {target value : NameWord} :
    (Sketch.Part.stmt (.assign line target value)).Reads
      [Mark.name line target.text, ⟨.assign, "=", line⟩, Mark.name line value.text,
        .layout .newline] := by
  intro s t n hs _ hn
  obtain ⟨n, rfl⟩ : ∃ m, n = m + 1 := ⟨n - 1, by rw [TokenStream.fuel] at hn; omega⟩
  obtain ⟨v, htarget, hvalue⟩ := (TokenStream.goes_append (l := [_, _])).1 hs
  have hnewline : v.tail.kind = .newline := hvalue.tail.kind_eq
  obtain ⟨-, -, -, rfl⟩ := hvalue.tail
  exact stmtOf_assign htarget (expr_name hvalue.head (by rw [hnewline]; rfl)) hnewline

/-- A function is read when its body is. -/
theorem reads_function {name : NameWord} {parameters : List NameWord} {body : List Sketch}
    {marks : List Mark} (h : (Sketch.Part.block body).Reads marks) :
    (Sketch.Part.stmt (.function line name parameters body)).Reads
      (Sketch.functionMarks line name parameters ++ Mark.indented line marks) := by
  intro s t n hs _ hn
  obtain ⟨n, rfl⟩ : ∃ m, n = m + 1 := ⟨n - 1, by rw [TokenStream.fuel] at hn; omega⟩
  obtain ⟨u, hhead, hsuite⟩ := TokenStream.goes_append.1 hs
  have hless := hhead.fuel_lt
  obtain ⟨a, hopen, hparameters⟩ := (TokenStream.goes_append (l := [_, _, _])).1 hhead
  obtain ⟨b, hparameters, hclose⟩ := TokenStream.goes_append.1 hparameters
  have hitems : List.Forall₂
      (ReadsItemAs (parameter expr true) (Parameter.mapSpan Span.onLine) .closeParen)
      (parameters.map fun p => [Mark.name line p.text])
      (parameters.map fun p => ⟨p.text, .positional, none, none⟩) :=
    List.forall₂_map_left_iff.2 (List.forall₂_map_right_iff.2
      (List.forall₂_same.2 fun p _ => readsItemAs_parameter p))
  have hcolon : u.kind = .colon := hsuite.kind_eq
  have hreturns : Yields returnsOf (Option.map (Expr.mapSpan Span.onLine)) u none u :=
    ⟨none, skip?_bind_eq_ok.2 (.inr ⟨by rw [hcolon]; decide, rfl⟩), rfl⟩
  have hbody := suiteOf_of_reads h hsuite (show u.fuel ≤ n by omega)
  have hread := stmtOf_function hopen (untilClosed_yields (by decide) hitems hparameters
    hclose.kind_eq) hclose hreturns hbody
  rwa [Sketch.stmt, Sketch.stmts_eq_map]

/-- A condition and the block that it guards. -/
theorem exists_guarded_eq_ok {kind : TokenKind} {word : String} {test : NameWord}
    {body : List Sketch} {marks : List Mark} (hkind : kind.isLayout = false)
    (hend : kind ≠ .endOfFile) (h : (Sketch.Part.block body).Reads marks)
    (hs : s.Goes (⟨kind, word, line⟩ :: Mark.name line test.text :: Mark.indented line marks) t)
    (hn : s.fuel ≤ n + 1) :
    ∃ g, guarded (stmtWithin n) s = .ok (g, t) ∧ g.start.onLine = .ofLine line ∧
      g.test.mapSpan Span.onLine = .name (.ofLine line) test.text ∧
      g.body.map (Stmt.mapSpan Span.onLine) = body.map Sketch.stmt := by
  have hcolon : s.tail.tail.kind = .colon := hs.tail.tail.kind_eq
  have hfuel := hs.head.fuel_eq
  have hfuel' := hs.tail.head.fuel_eq
  refine guarded_yields hs.head hkind hend
    (expr_name hs.tail.head (by rw [hcolon]; rfl)) (suiteOf_of_reads h hs.tail.tail ?_)
  rw [List.length_singleton] at hfuel hfuel'
  omega

/-- A condition with the else part that follows it. -/
theorem mapSpan_chained {g : Guarded} {others : List Guarded} {last : List Stmt} {stop : Span}
    {test : NameWord} {body orelse : List Sketch} (hstart : g.start.onLine = .ofLine line)
    (htest : g.test.mapSpan Span.onLine = .name (.ofLine line) test.text)
    (hbody : g.body.map (Stmt.mapSpan Span.onLine) = body.map Sketch.stmt)
    (hrest : (chainedRest stop last others).map (Stmt.mapSpan Span.onLine) =
      orelse.map Sketch.stmt) :
    (chained stop last g others).mapSpan Span.onLine =
      (Sketch.branch line test body orelse).stmt := by
  rw [chained_eq, Stmt.mapSpan, Stmt.mapSpanIn_eq_map, Stmt.mapSpanIn_eq_map, hbody, hrest, htest,
    Span.onLine_through, hstart, Sketch.stmt, Sketch.stmts_eq_map, Sketch.stmts_eq_map]

/-- A condition is read when what it guards is read and its else part is. -/
theorem reads_branch {test : NameWord} {body orelse : List Sketch} {marks more : List Mark}
    (hbody : (Sketch.Part.block body).Reads marks)
    (horelse : (Sketch.Part.orelse orelse).Reads more) :
    (Sketch.Part.stmt (.branch line test body orelse)).Reads
      (⟨.kwIf, "if", line⟩ :: Mark.name line test.text :: (Mark.indented line marks ++ more)) := by
  intro s t n hs ht hn
  obtain ⟨n, rfl⟩ : ∃ m, n = m + 1 := ⟨n - 1, by rw [TokenStream.fuel] at hn; omega⟩
  have hif : s.kind = .kwIf := hs.kind_eq
  obtain ⟨u, hguard, hmore⟩ := (TokenStream.goes_append (l := _ :: _ :: _)).1 hs
  have hless := hguard.fuel_lt
  obtain ⟨g, hg, hstart, htest, hbody⟩ := exists_guarded_eq_ok rfl (by decide) hbody hguard hn
  obtain ⟨others, v, last, hothers, hlast, hrest⟩ := horelse hmore ht (show u.fuel ≤ n by omega)
  refine ⟨chained t.last last g others, ?_, mapSpan_chained hstart htest hbody (hrest t.last)⟩
  obtain ⟨isElse, w, hskip, hlast⟩ := bind_eq_ok.1 hlast
  show stmtOf (stmtWithin n) s = _
  rw [stmtOf, get_bind, kind_bind, hif]
  refine bind_eq_ok.2 ⟨g, u, hg, bind_eq_ok.2 ⟨others, v, hothers.manyWhile_eq_ok, ?_⟩⟩
  refine bind_eq_ok.2 ⟨isElse, w, hskip, ?_⟩
  cases isElse with
  | true => exact bind_eq_ok.2 ⟨last, t, hlast, rfl⟩
  | false => exact bind_eq_ok.2 ⟨last, t, hlast, rfl⟩

/-- The else part may be left out. -/
theorem reads_noElse : (Sketch.Part.orelse []).Reads [] := by
  intro s t n hs ht _
  obtain rfl : s = t := hs
  exact ⟨[], s, [], .done (by simpa using ht.1), skip?_bind_eq_ok.2 (.inr ⟨ht.2, rfl⟩), fun _ =>
    rfl⟩

/-- A further condition is read when what it guards is read and its else part is. -/
theorem reads_elif {test : NameWord} {body orelse : List Sketch} {marks more : List Mark}
    (hbody : (Sketch.Part.block body).Reads marks)
    (horelse : (Sketch.Part.orelse orelse).Reads more) :
    (Sketch.Part.orelse [.branch line test body orelse]).Reads
      (⟨.kwElif, "elif", line⟩ :: Mark.name line test.text ::
        (Mark.indented line marks ++ more)) := by
  intro s t n hs ht hn
  have helif : s.kind = .kwElif := hs.kind_eq
  obtain ⟨u, hguard, hmore⟩ := (TokenStream.goes_append (l := _ :: _ :: _)).1 hs
  have hless := hguard.fuel_lt
  obtain ⟨g, hg, hstart, htest, hbody⟩ :=
    exists_guarded_eq_ok rfl (by decide) hbody hguard (Nat.le_succ_of_le hn)
  obtain ⟨others, v, last, hothers, hlast, hrest⟩ := horelse hmore ht (show u.fuel ≤ n by omega)
  refine ⟨g :: others, v, last, .next (by simpa using helif) hg hless hothers, hlast, fun stop =>
    ?_⟩
  exact congrArg (· :: []) (mapSpan_chained hstart htest hbody (hrest stop))

/-- A last else part is read when its statements are. -/
theorem reads_else {body : List Sketch} {marks : List Mark}
    (hbody : (Sketch.Part.block body).Reads marks) : (Sketch.Part.orelse body).Reads
      (⟨.kwElse, "else", line⟩ :: Mark.indented line marks) := by
  intro s t n hs _ hn
  have helse : s.kind = .kwElse := hs.kind_eq
  have hfuel := hs.head.fuel_eq
  obtain ⟨last, hlast, hmap⟩ := suiteOf_of_reads hbody hs.tail (show s.tail.fuel ≤ n by omega)
  exact ⟨[], s, last, .done (by simp [helse]), skip?_bind_eq_ok.2 (.inl ⟨helse, hlast⟩),
    fun _ => hmap⟩

/-- An empty run of statements is read. -/
theorem reads_done : (Sketch.Part.block []).Reads [] := by
  intro s t more item hs _ _ hmore _
  obtain rfl : s = t := hs
  exact ⟨[], .done hmore, rfl⟩

/-- The marks of a statement begin with a token that goes on with a block and with no condition. -/
theorem Written.begins {tree : Sketch} {marks : List Mark} (h : Written (.stmt tree) marks) :
    ∃ m rest, marks = m :: rest ∧ EndsChain m.kind ∧ m.kind ≠ .dedent ∧ m.kind ≠ .endOfFile := by
  cases h with
  | ret | assign | function | branch => exact ⟨_, _, rfl, ⟨nofun, nofun⟩, nofun, nofun⟩

/-- Where written statements begin no chain of conditions goes on, if none does where they end. -/
theorem Written.endsChain {trees : List Sketch} {marks : List Mark}
    (h : Written (.block trees) marks) (hs : s.Goes marks t) (ht : EndsChain t.kind) :
    EndsChain s.kind := by
  cases h with
  | done =>
    obtain rfl : s = t := hs
    exact ht
  | next htree _ =>
    obtain ⟨m, rest, rfl, hm, -⟩ := htree.begins
    rw [hs.kind_eq]
    exact hm

/-- Statements are read one after the other. -/
theorem reads_next {tree : Sketch} {trees : List Sketch} {marks more : List Mark}
    (hmarks : Written (.stmt tree) marks) (hmore : Written (.block trees) more)
    (htree : (Sketch.Part.stmt tree).Reads marks) (htrees : (Sketch.Part.block trees).Reads more) :
    (Sketch.Part.block (tree :: trees)).Reads (marks ++ more) := by
  intro s t goes item hs ht hgoes hstop hitem
  obtain ⟨v, hfirst, hothers⟩ := TokenStream.goes_append.1 hs
  have hv := hmore.endsChain hothers ht
  obtain ⟨m, rest, rfl, -, hdedent, hend⟩ := hmarks.begins
  have hbegins : moreInBlock s = true := by
    rw [moreInBlock, hfirst.kind_eq]
    simp [hdedent, hend]
  obtain ⟨a, ha, hmap⟩ := hitem (Nat.le_refl _) fun n hn => htree hfirst hv hn
  have hless := hfirst.fuel_lt
  obtain ⟨found, hfound, hmaps⟩ := htrees hothers ht hgoes hstop
    fun hle => hitem (Nat.le_trans hle (Nat.le_of_lt hless))
  refine ⟨a :: found, .next (hgoes s hbegins) ha hless hfound, ?_⟩
  rw [List.map_cons, hmap, hmaps, List.map_cons]

/-- Every way of writing a tree is read as the tree. -/
theorem Written.reads {part : Sketch.Part} {marks : List Mark} (h : Written part marks) :
    part.Reads marks := by
  induction h with
  | ret => exact reads_ret
  | assign => exact reads_assign
  | function _ ih => exact reads_function ih
  | branch _ _ ihbody ihorelse => exact reads_branch ihbody ihorelse
  | noElse => exact reads_noElse
  | elif _ _ ihbody ihorelse => exact reads_elif ihbody ihorelse
  | «else» _ ih => exact reads_else ih
  | done => exact reads_done
  | next htree htrees ihtree ihtrees => exact reads_next htree htrees ihtree ihtrees

end NoteCheck.Code
