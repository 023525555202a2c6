/-
# Lines at the left margin

Lines that stand outside all blocks and are read as statements: assignments, functions of one line,
and statements whose contents are passed over. The main statement, `Margin.exists_marks`: lines of
such statements, one after the other, have marks that are read as these, and then the block goes on
with what follows them.
-/
import NoteCheck.Proofs.Grammar.Block
import NoteCheck.Proofs.Stub.Pieces

namespace NoteCheck.Code

open Parse

variable {line : Nat} {s t u : TokenStream} {a : Stmt}

theorem Parse.Yields.bare {p : Parse Stmt}
    (h : Yields p (Stmt.mapSpan Span.onLine) s a t) : Yields p Stmt.bare s a.bare t := by
  obtain ⟨b, hread, rfl⟩ := h
  exact ⟨b, hread, (Stmt.mapSpan_mapSpan Span.onLine (fun _ => ⟨.start, .start⟩) b).symm⟩

/-! ## Single statements -/

/-- Lines outside all blocks with the given marks, which are read as a statement, up to spans. -/
structure Stands (line : Nat) (rows : List Row) (marks : List Mark) (a : Stmt) : Prop where
  ne_nil : marks ≠ []
  opens : ∀ {blocks kinds}, Enters blocks 0 kinds [] →
    Opens blocks 0 line rows [] (kinds.map .layout ++ marks)
  reads : ∀ {s t n}, s.Goes marks t → Yields (stmtOf (stmtWithin (n + 1))) Stmt.bare s a.bare t

/-- A statement on one line. -/
theorem FillsLine.stands {text : String} {words : List Mark}
    (h : FillsLine line text words)
    (hreads : ∀ {s u n}, s.Goes words u → u.kind = .newline →
      Yields (stmtOf (stmtWithin n)) (Stmt.mapSpan Span.onLine) s a u.tail) :
    Stands line [.words 0 text] (words ++ [.layout .newline]) a where
  ne_nil := List.append_ne_nil_of_left_ne_nil h.ne_nil _
  opens := fun henters => opens_words henters h
  reads := by
    intro s t n hs
    obtain ⟨u, hwords, hnewline⟩ := TokenStream.goes_append.1 hs
    have hu : u.kind = .newline := hnewline.kind_eq
    obtain ⟨-, -, -, rfl⟩ := hnewline
    exact (hreads hwords hu).bare

/-! ### Assignments -/

/-- An assignment of a piece to a name. -/
theorem stands_assign {word : String} (hword : IsWord word .identifier) {p : Piece}
    (hp : p.Reads line) {text : String}
    (htext : text.toList = word.toList ++ " = ".toList ++ p.text) :
    ∃ marks, Stands line [.words 0 text] marks
      (.assign (.ofLine line) [.name (.ofLine line) word] p.value) := by
  have hvalue : Spells line ("=".toList ++ ' ' :: p.text) (⟨.assign, "=", line⟩ :: p.marks) :=
    (hp.spells.blank hp.begins).lookup rfl (by decide) .blank
  have hspells : Spells line (word.toList ++ ' ' :: ("=".toList ++ ' ' :: p.text))
      (Mark.name line word :: ⟨.assign, "=", line⟩ :: p.marks) :=
    (Piece.reads_name hword).spells.append
      (hvalue.blank (beginsWithWord_append (isWord_of_lookup rfl) _)) .blank
  have htext' : text.toList = word.toList ++ ' ' :: ("=".toList ++ ' ' :: p.text) := by
    rw [htext]
    simp
  have hfills : FillsLine line text (Mark.name line word :: ⟨.assign, "=", line⟩ :: p.marks) := by
    refine ⟨?_, ?_, hp.closed 0, List.cons_ne_nil _ _⟩
    · rw [htext']
      exact beginsWithWord_append hword _
    · rw [htext']
      exact hspells
  refine ⟨_, hfills.stands fun hs hu => ?_⟩
  obtain ⟨v, htarget, hvalue⟩ := (TokenStream.goes_append (l := [_, _])).1 hs
  exact stmtOf_assign htarget (hp.expr hvalue (by rw [hu]; rfl)) hu

/-! ### Functions -/

/-- The head of a function: its name, its parameters with their types, and the type of its result.
-/
structure Head where
  name : String
  parameters : List (String × Piece)
  result : Piece

namespace Head

/-- The names are identifiers, and the types are read as such. -/
structure Reads (line : Nat) (f : Head) : Prop where
  name : IsWord f.name .identifier
  parameters : ∀ p ∈ f.parameters, IsWord p.1 .identifier ∧ p.2.Reads line
  result : f.result.Reads line

/-- The text of a parameter. -/
def parameterText (p : String × Piece) : List Char := p.1.toList ++ ": ".toList ++ p.2.text

/-- The text of a head. -/
def text (f : Head) : List Char :=
  "def".toList ++ ' ' :: (f.name.toList ++ '(' ::
    ([',', ' '].intercalate (f.parameters.map parameterText) ++ (")".toList ++ ' ' ::
      ("->".toList ++ ' ' :: (f.result.text ++ ":".toList)))))

/-- The marks of a parameter. -/
def parameterMarks (line : Nat) (p : String × Piece) : List Mark :=
  Mark.name line p.1 :: ⟨.colon, ":", line⟩ :: p.2.marks

/-- The marks of a head, up to the colon. -/
def marks (line : Nat) (f : Head) : List Mark :=
  [⟨.kwDef, "def", line⟩, Mark.name line f.name, ⟨.openParen, "(", line⟩] ++
    (Mark.separated line (f.parameters.map (parameterMarks line)) ++
      (⟨.closeParen, ")", line⟩ :: ⟨.arrow, "->", line⟩ :: f.result.marks))

/-- The function with a head, whose body does nothing but raise an exception. -/
def stmt (line : Nat) (f : Head) : Stmt :=
  .function (.ofLine line) f.name
    (f.parameters.map fun p => ⟨p.1, .positional, some p.2.value, none⟩) (some f.result.value) []
    false [.skipped (.ofLine (line + 1)) .raise]

variable {f : Head}

theorem Reads.spells_parameter (hf : f.Reads line) {p : String × Piece} (hp : p ∈ f.parameters) :
    Spells line (parameterText p) (parameterMarks line p) ∧ BeginsWithWord (parameterText p) := by
  obtain ⟨hname, htype⟩ := hf.parameters p hp
  have hcolon : Spells line (":".toList ++ ' ' :: p.2.text) (⟨.colon, ":", line⟩ :: p.2.marks) :=
    (htype.spells.blank htype.begins).lookup rfl (by decide) .blank
  have htext : parameterText p = p.1.toList ++ (":".toList ++ ' ' :: p.2.text) := by
    simp [parameterText]
  rw [htext]
  exact ⟨(Piece.reads_name hname).spells.append hcolon .colon, beginsWithWord_append hname _⟩

theorem Reads.spells (hf : f.Reads line) :
    Spells line f.text (f.marks line ++ [⟨.colon, ":", line⟩]) := by
  have hend : Spells line ":".toList [⟨.colon, ":", line⟩] :=
    .word (isWord_of_lookup rfl) (by decide)
  have hresult := (hf.result.spells.append hend .colon).blank (hf.result.begins.append _)
  have hword : IsWord "->" .arrow := isWord_of_lookup rfl
  have harrow := (hresult.lookup (w := "->") rfl (by decide) .blank).blank
    (beginsWithWord_append hword _)
  have hclose := harrow.lookup (w := ")") rfl (by decide) .blank
  have hparameters : Spells line ([',', ' '].intercalate
      (f.parameters.map parameterText))
      (Mark.separated line (f.parameters.map (parameterMarks line))) :=
    spells_intercalate (List.forall₂_map_left_iff.2 (List.forall₂_map_right_iff.2
      (List.forall₂_same.2 fun p hp => hf.spells_parameter hp)))
  have hopen := (Piece.reads_name hf.name).spells.append
    (hparameters.append hclose .closeParen).openParen .openParen
  have hwhole := (hopen.blank (beginsWithWord_append hf.name _)).lookup (w := "def") rfl
    (by decide) .blank
  rw [text]
  simp only [marks, List.append_assoc, List.cons_append]
  exact hwhole

theorem Reads.depthAfter_marks (hf : f.Reads line) :
    depthAfter (f.marks line ++ [⟨.colon, ":", line⟩]) 0 = 0 := by
  have hparameters : ∀ part ∈ f.parameters.map (parameterMarks line),
      ∀ depth, depthAfter part depth = depth := by
    rw [List.forall_mem_map]
    exact fun p hp => (hf.parameters p hp).2.closed
  simp [marks, depthAfter_separated hparameters, hf.result.closed]
  rfl

theorem Reads.fillsLine (hf : f.Reads line) {text : String} (htext : text.toList = f.text) :
    FillsLine line text (f.marks line ++ [⟨.colon, ":", line⟩]) where
  begins := by
    have hword : IsWord "def" .kwDef := isWord_of_lookup rfl
    rw [htext, Head.text]
    exact beginsWithWord_append hword _
  spells := htext ▸ hf.spells
  closed := hf.depthAfter_marks
  ne_nil := nofun

/-- The line with which every body of a function consists. -/
def raising : String := "raise NotImplementedError"

/-- The marks of a body. -/
def raisingMarks (line : Nat) : List Mark :=
  [⟨.kwRaise, "raise", line⟩, Mark.name line "NotImplementedError"]

theorem fillsLine_raising : FillsLine line raising (raisingMarks line) where
  begins := ⟨"raise", _, _, isWord_of_lookup rfl, rfl⟩
  spells := by
    have hname : IsWord "NotImplementedError" .identifier := by decide +kernel
    have hnamed := @Piece.reads_name line _ hname
    exact (hnamed.spells.blank hnamed.begins).lookup (w := "raise") rfl (by decide) .blank
  closed := rfl
  ne_nil := nofun

/-- The lines of a function with a head. -/
def rows (text : String) : List Row := [.words 0 text, .words 4 raising]

theorem opens_raising : Opens [] 4 (line + 1) [.words 4 raising] [4]
    (.layout .indent :: (raisingMarks (line + 1) ++ [.layout .newline])) :=
  opens_words (.opens (by decide)) fillsLine_raising

/-- A body is read as a statement that raises an exception. -/
theorem raising_yields {n : Nat} (hs : s.Goes (raisingMarks line ++ [.layout .newline]) t)
    (ht : t.kind = .dedent) :
    Yields (manyWhile moreInBlock (stmtWithin (n + 1))) (List.map (Stmt.mapSpan Span.onLine)) s
      [.skipped (.ofLine line) .raise] t := by
  have hfuel := TokenStream.Goes.fuel_lt (l := _ :: _) hs
  have hraise : s.kind = .kwRaise := TokenStream.Goes.kind_eq (l := _ :: _) hs
  obtain ⟨u, hwords, hnewline⟩ := TokenStream.goes_append.1 hs
  have hu : u.kind = .newline := hnewline.kind_eq
  obtain ⟨-, -, -, rfl⟩ := hnewline
  have hstmt : Yields (stmtOf (stmtWithin n)) (Stmt.mapSpan Span.onLine) s
      (.skipped (.ofLine line) .raise) u.tail :=
    stmtOf_skipped rfl hwords (by simp [Mark.name, endsLine]) hu
  obtain ⟨a, hread, ha⟩ := hstmt
  have hmore : moreInBlock s = true := by
    rw [moreInBlock, hraise]
    rfl
  have hdone : moreInBlock u.tail = false := by
    rw [moreInBlock, ht]
    rfl
  refine ⟨[a], (Many.next hmore hread hfuel (.done hdone)).manyWhile_eq_ok, ?_⟩
  rw [List.map_singleton, ha]

/-- A function whose body is one line. -/
theorem Reads.stands (hf : f.Reads line) {text : String} (htext : text.toList = f.text) :
    ∃ marks, Stands line (rows text) marks (f.stmt line) := by
  refine ⟨f.marks line ++ Mark.indented line (raisingMarks (line + 1) ++ [.layout .newline]),
    nofun, ?_, ?_⟩
  · exact fun henters => opens_indented henters (by decide) (hf.fillsLine htext) opens_raising
  · intro s t n hs
    obtain ⟨u, hhead, hsuite⟩ := TokenStream.goes_append.1 hs
    have hcolon : u.kind = .colon := hsuite.kind_eq
    obtain ⟨a, hdef, hrest⟩ := TokenStream.goes_append.1 hhead
    obtain ⟨b, hparameters, hresult⟩ := TokenStream.goes_append.1 hrest
    have hclose : b.kind = .closeParen := hresult.kind_eq
    have harrow : b.tail.kind = .arrow := hresult.tail.kind_eq
    have hitems : List.Forall₂
        (ReadsItemAs (parameter expr true) (Parameter.mapSpan Span.onLine) .closeParen)
        (f.parameters.map (parameterMarks line))
        (f.parameters.map fun p => ⟨p.1, .positional, some p.2.value, none⟩) :=
      List.forall₂_map_left_iff.2 (List.forall₂_map_right_iff.2
        (List.forall₂_same.2 fun p hp => (hf.parameters p hp).2.readsParameter p.1))
    have hreturns : Yields returnsOf (Option.map (Expr.mapSpan Span.onLine)) b.tail
        (some f.result.value) u := by
      obtain ⟨e, hread, he⟩ := hf.result.expr hresult.tail.tail (by rw [hcolon]; rfl)
      refine ⟨some e, skip?_bind_eq_ok.2 (.inl ⟨harrow, ?_⟩), by rw [Option.map_some, he]⟩
      exact map_eq_ok.2 ⟨e, hread, rfl⟩
    have hbody := suiteOf_yields (p := stmtWithin (n + 1)) hsuite
      fun hv _ hw => raising_yields (n := n) hv hw
    exact (stmtOf_function hdef (untilClosed_yields (by decide) hitems hparameters hclose)
      hresult.head hreturns hbody).bare

end Head

/-! ## Statements one after the other -/

/-- Lines outside all blocks that are read as statements, one after the other. -/
inductive Margin : Nat → List Row → List Stmt → Prop
  | done {line : Nat} : Margin line [] []
  | blank {line : Nat} {width rows body} : Margin (line + 1) rows body →
      Margin line (.blank width :: rows) body
  | next {line : Nat} {rows marks a more body} : Stands line rows marks a →
      Margin (line + rows.length) more body → Margin line (rows ++ more) (a :: body)

/-- What is read of marks, up to spans, is followed by what is read of the tokens after them. -/
structure Precedes (marks : List Mark) (body : List Stmt) : Prop where
  reads : ∀ {s t u others}, s.Goes marks t → block t = .ok (others, u) →
    ∃ found, block s = .ok (found ++ others, u) ∧ found.map Stmt.bare = body.map Stmt.bare
  stuck : ∀ {s t}, s.Goes marks t → Stuck t → Stuck s

theorem precedes_nil : Precedes [] [] where
  reads := by
    rintro s t u others rfl hothers
    exact ⟨[], hothers, rfl⟩
  stuck := by
    rintro s t rfl ht
    exact ht

theorem Stands.precedes {rows : List Row} {marks more : List Mark} {body : List Stmt}
    (h : Stands line rows marks a) (hmore : Precedes more body) :
    Precedes (marks ++ more) (a :: body) := by
  have hstmt {s t : TokenStream} (hs : s.Goes marks t) : s.hasTokens = true ∧ t.fuel < s.fuel ∧
      Yields stmt Stmt.bare s a.bare t := by
    obtain ⟨m, l, rfl⟩ := List.exists_cons_of_ne_nil h.ne_nil
    obtain ⟨n, hn⟩ : ∃ n, s.fuel = n + 2 := by
      have hpos := List.length_pos_iff.2 hs.2.2.1
      exact ⟨s.ahead.length - 1, by rw [TokenStream.fuel]; omega⟩
    obtain ⟨b, hread, hb⟩ := h.reads (n := n) hs
    refine ⟨bne_iff_ne.2 hs.2.1, hs.fuel_lt, b, ?_, hb⟩
    rw [stmt, get_bind, hn]
    exact hread
  refine ⟨fun hs hothers => ?_, fun hs ht => ?_⟩
  · obtain ⟨v, hmarks, hv⟩ := TokenStream.goes_append.1 hs
    obtain ⟨found, hfound, hmap⟩ := hmore.reads hv hothers
    obtain ⟨hbegins, hless, b, hread, hb⟩ := hstmt hmarks
    refine ⟨b :: found, manyWhile_cons hbegins hread hless hfound, ?_⟩
    rw [List.map_cons, hb, hmap, List.map_cons]
  · obtain ⟨v, hmarks, hv⟩ := TokenStream.goes_append.1 hs
    obtain ⟨hbegins, -, b, hread, -⟩ := hstmt hmarks
    exact (hmore.stuck hv ht).of_stmt hbegins hread

/-- The marks of lines outside all blocks, and what is read of them. -/
theorem Margin.exists_marks {rows : List Row} {body : List Stmt} (h : Margin line rows body) :
    ∃ marks, Precedes marks body ∧ ∀ {deeper}, (∀ b ∈ deeper, 0 < b) →
      Opens (deeper ++ []) 0 line rows [] (dedents deeper ++ marks) := by
  induction h with
  | done =>
    refine ⟨[], precedes_nil, fun hdeeper => ?_⟩
    rw [List.append_nil (dedents _)]
    exact opens_nil hdeeper
  | blank _ ih =>
    obtain ⟨marks, hmarks, hopens⟩ := ih
    exact ⟨marks, hmarks, fun hdeeper => (hopens hdeeper).blank⟩
  | @next line rows marks a more body hstands _ ih =>
    obtain ⟨others, hothers, hmore⟩ := ih
    refine ⟨marks ++ others, hstands.precedes hothers, fun hdeeper => ?_⟩
    have hlines := enters_of_deeper hdeeper (show ([] : List Nat).headD 0 = 0 from rfl)
    have hopens := (hstands.opens hlines).append fun hdeeper' => hmore hdeeper'
    rw [← List.append_assoc]
    rwa [layout_replicate] at hopens

end NoteCheck.Code
