/-
# Trees in indented lines

How trees of statements are laid out in lines: each block is indented by any number of blanks more
than the one around it, all its lines by the same number, and blank lines may stand anywhere. The
main statement, `Lays.exists_marked`: the marks of such lines are those of a way to write the tree,
whatever the widths.
-/
import NoteCheck.Proofs.Grammar.Sketch

namespace NoteCheck.Code

/-! ## Heads of statements -/

/-- No name goes over a line. -/
theorem NameWord.lineBreak_notMem (word : NameWord) : '\n' ∉ word.text.toList := by
  have halone := word.isWord.alone
  have hstring := word.isWord.not_string
  obtain ⟨c, more, hword⟩ := List.exists_cons_of_ne_nil word.isWord.ne_nil
  rw [hword] at halone hstring ⊢
  unfold Lexeme.next? at halone
  rw [hstring] at halone
  -- a name is read by the reader of words, which takes no line breaks
  by_cases hstart : Word.isStart c = true
  · rw [Word.read?, if_pos hstart] at halone
    obtain ⟨-, htext⟩ := Lexeme.token.inj (Prod.mk.inj (Option.some.inj halone)).1
    have hmore : more.takeWhile Word.isPart = more := (List.cons.inj htext).2
    have hparts := List.takeWhile_eq_self_iff.1 hmore
    intro hmem
    obtain rfl | hmem := List.mem_cons.1 hmem
    · cases hstart
    · cases hparts '\n' hmem
  · -- no other token is a name
    rw [Word.read?, if_neg hstart] at halone
    cases hnumber : Numeral.read? (c :: more) with
    | some s =>
      rw [hnumber] at halone
      cases halone
    | none =>
      rw [hnumber] at halone
      cases hbreak : Gap.lineBreak? (c :: more) with
      | some s =>
        rw [hbreak] at halone
        cases halone
      | none =>
        rw [hbreak] at halone
        cases hgap : Gap.read? (c :: more) with
        | some s =>
          rw [hgap] at halone
          cases halone
        | none =>
          rw [hgap] at halone
          obtain ⟨⟨kind, text, left⟩, hmark, hkind⟩ := Option.map_eq_some_iff.1 halone
          cases hkind
          obtain ⟨m, hmem, hmark⟩ := List.exists_of_findSome?_eq_some hmark
          obtain ⟨_, -, hmark⟩ := Option.map_eq_some_iff.1 hmark
          have hmarks : ∀ m ∈ TokenKind.marks, m.2 ≠ .identifier := by decide
          exact absurd (Prod.mk.inj hmark).1 (hmarks m hmem)

section

variable {line width : Nat}

theorem spells_name (word : NameWord) :
    Spells line word.text.toList [Mark.name line word.text] :=
  .word word.isWord word.lineBreak_notMem

/-- Texts with commas and blanks between them, each of them read as its words. -/
theorem spells_intercalate {texts : List (List Char)} {parts : List (List Mark)}
    (h : List.Forall₂ (fun text part => Spells line text part ∧ BeginsWithWord text) texts parts) :
    Spells line ([',', ' '].intercalate texts) (Mark.separated line parts) := by
  induction h with
  | nil => exact .nil
  | @cons text part texts parts hfirst hothers ih =>
    cases hothers with
    | nil =>
      rw [List.intercalate_singleton]
      show Spells line text (part ++ [])
      rw [List.append_nil]
      exact hfirst.1
    | @cons second part' texts parts hsecond hothers =>
      have hbegins : BeginsWithWord ([',', ' '].intercalate (second :: texts)) := by
        cases texts with
        | nil =>
          rw [List.intercalate_singleton]
          exact hsecond.2
        | cons third texts =>
          rw [List.intercalate_cons_cons]
          exact (hsecond.2.append _).append _
      have hcomma := (ih.blank hbegins).lookup (w := ",") rfl (by decide) .blank
      rw [List.intercalate_cons_cons, List.append_assoc]
      exact hfirst.1.append hcomma .comma

/-- Items that close their brackets, with commas between them, close all brackets. -/
theorem depthAfter_separated {parts : List (List Mark)}
    (h : ∀ part ∈ parts, ∀ depth, depthAfter part depth = depth) (depth : Nat) :
    depthAfter (Mark.separated line parts) depth = depth := by
  have hothers : ∀ parts : List (List Mark),
      (∀ part ∈ parts, ∀ depth, depthAfter part depth = depth) →
        depthAfter (Mark.afterFirst line parts) depth = depth := by
    intro parts
    induction parts with
    | nil => exact fun _ => rfl
    | cons part parts ih =>
      intro h
      obtain ⟨hpart, hparts⟩ := List.forall_mem_cons.1 h
      rw [Mark.afterFirst, List.flatMap_cons, List.cons_append, depthAfter_cons, depthAfter_append,
        hpart]
      exact ih hparts
  cases parts with
  | nil => rfl
  | cons part parts =>
    obtain ⟨hpart, hparts⟩ := List.forall_mem_cons.1 h
    rw [Mark.separated, depthAfter_append, hpart, hothers parts hparts]

namespace Sketch

/-- The text of the head of a function. -/
def functionHead (name : NameWord) (parameters : List NameWord) : String :=
  "def " ++ name.text ++ "(" ++ ", ".intercalate (parameters.map NameWord.text) ++ "):"

/-- The text of a condition after its first word. -/
def guardHead (word : String) (test : NameWord) : String := word ++ " " ++ test.text ++ ":"

/-- The text of a return. -/
def retText (value : NameWord) : String := "return " ++ value.text

/-- The text of an assignment. -/
def assignText (target value : NameWord) : String := target.text ++ " = " ++ value.text

theorem fillsLine_functionHead (name : NameWord) (parameters : List NameWord) :
    FillsLine line (functionHead name parameters)
      (functionMarks line name parameters ++ [⟨.colon, ":", line⟩]) := by
  have htext : (functionHead name parameters).toList = "def".toList ++ ' ' :: (name.text.toList ++
      '(' :: ([',', ' '].intercalate (parameters.map fun p => p.text.toList) ++
        (")".toList ++ (":".toList ++ [])))) := by
    simp [functionHead, String.toList_intercalate, Function.comp_def]
  have hparameters : Spells line ([',', ' '].intercalate (parameters.map fun p => p.text.toList))
      (Mark.separated line (parameters.map fun p => [Mark.name line p.text])) :=
    spells_intercalate (List.forall₂_map_left_iff.2 (List.forall₂_map_right_iff.2
      (List.forall₂_same.2 fun p _ => ⟨spells_name p, p.text, _, [], p.isWord, by simp⟩)))
  have hclose : Spells line (")".toList ++ (":".toList ++ [])) _ :=
    (Spells.nil.lookup rfl (by decide) .nil).lookup rfl (by decide) .colon
  have hopen := (spells_name name).append (hparameters.append hclose .closeParen).openParen
    .openParen
  refine ⟨?_, ?_, ?_, ?_⟩
  · rw [htext]
    exact beginsWithWord_append (isWord_of_lookup rfl) _
  · rw [htext]
    have hspells := (hopen.blank (beginsWithWord_append name.isWord _)).lookup (w := "def") rfl
      (by decide) .blank
    simpa [functionMarks] using hspells
  · have hnames : ∀ part ∈ parameters.map fun p => [Mark.name line p.text],
        ∀ depth, depthAfter part depth = depth := by
      simp only [List.forall_mem_map]
      exact fun _ _ _ => rfl
    simp [functionMarks, depthAfter_separated hnames]
    rfl
  · simp [functionMarks]

theorem fillsLine_guardHead {word : String} {kind : TokenKind} (test : NameWord)
    (hw : (TokenKind.marks ++ TokenKind.reservedWords).lookup word = some kind)
    (hline : '\n' ∉ word.toList) (hkind : ∀ depth, kind.depthAfter depth = depth) :
    FillsLine line (guardHead word test)
      [⟨kind, word, line⟩, Mark.name line test.text, ⟨.colon, ":", line⟩] := by
  have htext : (guardHead word test).toList =
      word.toList ++ ' ' :: (test.text.toList ++ (":".toList ++ [])) := by
    simp [guardHead]
  have htest : Spells line (test.text.toList ++ (":".toList ++ [])) _ :=
    (spells_name test).append (Spells.nil.lookup rfl (by decide) .nil) .colon
  refine ⟨?_, ?_, ?_, List.cons_ne_nil _ _⟩
  · rw [htext]
    exact beginsWithWord_append (isWord_of_lookup hw) _
  · rw [htext]
    exact (htest.blank (beginsWithWord_append test.isWord _)).lookup hw hline .blank
  · rw [depthAfter_cons, hkind]
    rfl

theorem fillsLine_if (test : NameWord) : FillsLine line (guardHead "if" test)
    [⟨.kwIf, "if", line⟩, Mark.name line test.text, ⟨.colon, ":", line⟩] :=
  fillsLine_guardHead test rfl (by decide) fun _ => rfl

theorem fillsLine_elif (test : NameWord) : FillsLine line (guardHead "elif" test)
    [⟨.kwElif, "elif", line⟩, Mark.name line test.text, ⟨.colon, ":", line⟩] :=
  fillsLine_guardHead test rfl (by decide) fun _ => rfl

theorem fillsLine_else : FillsLine line "else:" [⟨.kwElse, "else", line⟩, ⟨.colon, ":", line⟩] where
  begins := ⟨"else", _, [':'], isWord_of_lookup rfl, rfl⟩
  spells := (Spells.nil.lookup (w := ":") rfl (by decide) .nil).lookup (w := "else") rfl
    (by decide) .colon
  closed := rfl
  ne_nil := List.cons_ne_nil _ _

theorem fillsLine_retText (value : NameWord) : FillsLine line (retText value)
    [⟨.kwReturn, "return", line⟩, Mark.name line value.text] := by
  have htext : (retText value).toList = "return".toList ++ ' ' :: (value.text.toList ++ []) := by
    simp [retText]
  have hvalue : Spells line (value.text.toList ++ []) [Mark.name line value.text] := by
    rw [List.append_nil]
    exact spells_name value
  refine ⟨?_, ?_, rfl, List.cons_ne_nil _ _⟩
  · rw [htext]
    exact beginsWithWord_append (isWord_of_lookup rfl) _
  · rw [htext]
    exact (hvalue.blank (beginsWithWord_append value.isWord _)).lookup rfl (by decide) .blank

theorem fillsLine_assignText (target value : NameWord) : FillsLine line (assignText target value)
    [Mark.name line target.text, ⟨.assign, "=", line⟩, Mark.name line value.text] := by
  have htext : (assignText target value).toList =
      target.text.toList ++ ' ' :: ("=".toList ++ ' ' :: (value.text.toList ++ [])) := by
    simp [assignText]
  have hvalue : Spells line (value.text.toList ++ []) [Mark.name line value.text] := by
    rw [List.append_nil]
    exact spells_name value
  have hassign : Spells line ("=".toList ++ ' ' :: (value.text.toList ++ [])) _ :=
    (hvalue.blank (beginsWithWord_append value.isWord _)).lookup rfl (by decide) .blank
  refine ⟨?_, ?_, rfl, List.cons_ne_nil _ _⟩
  · rw [htext]
    exact beginsWithWord_append target.isWord _
  · rw [htext]
    exact (spells_name target).append (hassign.blank (beginsWithWord_append
      (isWord_of_lookup rfl) _)) .blank

end Sketch

end

/-! ## Layouts -/

/-- The lines in which a part of a tree is laid out, the first of which has the given number. The
width is that of the lines of the statement, of the block, or of the condition that the part
follows. -/
inductive Lays : Nat → Nat → Sketch.Part → List Row → Prop
  | blank {width line part k rows} : Lays width (line + 1) part rows →
      Lays width line part (.blank k :: rows)
  | ret {width line value} :
      Lays width line (.stmt (.ret line value)) [.words width (Sketch.retText value)]
  | assign {width line target value} : Lays width line (.stmt (.assign line target value))
      [.words width (Sketch.assignText target value)]
  | function {width inner line name parameters body rows} : width < inner → body ≠ [] →
      Lays inner (line + 1) (.block body) rows →
      Lays width line (.stmt (.function line name parameters body))
        (.words width (Sketch.functionHead name parameters) :: rows)
  | branch {width inner line test body orelse rows more} : width < inner → body ≠ [] →
      Lays inner (line + 1) (.block body) rows →
      Lays width (line + 1 + rows.length) (.orelse orelse) more →
      Lays width line (.stmt (.branch line test body orelse))
        (.words width (Sketch.guardHead "if" test) :: (rows ++ more))
  | noElse {width line} : Lays width line (.orelse []) []
  | elif {width inner line test body orelse rows more} : width < inner → body ≠ [] →
      Lays inner (line + 1) (.block body) rows →
      Lays width (line + 1 + rows.length) (.orelse orelse) more →
      Lays width line (.orelse [.branch line test body orelse])
        (.words width (Sketch.guardHead "elif" test) :: (rows ++ more))
  | else {width inner line body rows} : width < inner → body ≠ [] →
      Lays inner (line + 1) (.block body) rows →
      Lays width line (.orelse body) (.words width "else:" :: rows)
  | done {width line} : Lays width line (.block []) []
  | next {width line tree trees rows more} : Lays width line (.stmt tree) rows →
      Lays width (line + rows.length) (.block trees) more →
      Lays width line (.block (tree :: trees)) (rows ++ more)

/-! ## Marks of layouts -/

section

variable {width line : Nat} {rows more : List Row} {blocks inner last : List Nat}
  {marks others : List Mark}

theorem Marked.append (h : Marked blocks line rows marks inner)
    (h' : Marked inner (line + rows.length) more others last) :
    Marked blocks line (rows ++ more) (marks ++ others) last := by
  induction h with
  | nil => exact h'
  | blank _ ih =>
    rw [List.length_cons, ← Nat.succ_add_eq_add_succ] at h'
    exact .blank (ih h')
  | words henters htext _ ih =>
    rw [List.length_cons, ← Nat.succ_add_eq_add_succ] at h'
    rw [List.append_assoc, List.cons_append, List.cons_append]
    exact .words henters htext (ih h')

/-- The marks that close some blocks. -/
def dedents (blocks : List Nat) : List Mark := blocks.map fun _ => .layout .dedent

/-- The lines of a part lead from some open blocks to those inside which the part stands, with
deeper ones still open, and their marks are the given ones once these are closed. -/
def Opens (blocks : List Nat) (width line : Nat) (rows : List Row) (inner : List Nat)
    (marks : List Mark) : Prop :=
  ∃ found deeper, Marked blocks line rows found (deeper ++ inner) ∧ (∀ b ∈ deeper, width < b) ∧
    found ++ dedents deeper = marks

/-- What the marks of a part are: those of a statement after the marks with which its first line
opens or closes blocks, and those of any other part after the marks that close all deeper blocks. A
block with statements is also entered as a statement is. -/
def Sketch.Part.Marks (width line : Nat) (rows : List Row) (marks : List Mark) :
    Sketch.Part → Prop
  | stmt _ => ∀ {blocks kinds inner}, Enters blocks width kinds inner → inner.headD 0 = width →
      Opens blocks width line rows inner (kinds.map .layout ++ marks)
  | block trees => (∀ {deeper inner}, (∀ b ∈ deeper, width < b) → inner.headD 0 = width →
        Opens (deeper ++ inner) width line rows inner (dedents deeper ++ marks)) ∧
      (trees ≠ [] → ∀ {blocks kinds inner}, Enters blocks width kinds inner →
        inner.headD 0 = width → Opens blocks width line rows inner (kinds.map .layout ++ marks))
  | orelse _ => ∀ {deeper inner}, (∀ b ∈ deeper, width < b) → inner.headD 0 = width →
      Opens (deeper ++ inner) width line rows inner (dedents deeper ++ marks)

@[simp] theorem dedents_append (a b : List Nat) : dedents (a ++ b) = dedents a ++ dedents b :=
  List.map_append

theorem layout_replicate (blocks : List Nat) :
    (List.replicate blocks.length TokenKind.dedent).map Mark.layout = dedents blocks := by
  rw [List.map_replicate, dedents, List.map_const']

/-- Closing all deeper blocks is a way to enter a line. -/
theorem enters_of_deeper {deeper : List Nat} (h : ∀ b ∈ deeper, width < b)
    (hinner : inner.headD 0 = width) :
    Enters (deeper ++ inner) width (List.replicate deeper.length .dedent) inner :=
  .closes h hinner

/-- A line, and the indented block after it. -/
theorem opens_indented {kinds : List TokenKind} {text : String} {l : List Mark} {deep : Nat}
    (henters : Enters blocks width kinds inner) (hdeep : width < deep)
    (htext : FillsLine line text (l ++ [⟨.colon, ":", line⟩]))
    (hbody : Opens inner deep (line + 1) rows (deep :: inner) (.layout .indent :: marks)) :
    Opens blocks width line (.words width text :: rows) inner
      (kinds.map .layout ++ (l ++ Mark.indented line marks)) := by
  obtain ⟨found, deeper, hfound, hdeeper, hmarks⟩ := hbody
  rw [List.append_cons] at hfound
  refine ⟨_, deeper ++ [deep], .words henters htext hfound, ?_, ?_⟩
  · rintro b hb
    obtain hb | hb := List.mem_append.1 hb
    · exact Nat.lt_trans hdeep (hdeeper b hb)
    · rw [List.mem_singleton.1 hb]
      exact hdeep
  · have hdedents : found ++ dedents (deeper ++ [deep]) =
        .layout .indent :: marks ++ [.layout .dedent] := by
      rw [dedents_append, ← List.append_assoc, hmarks]
      rfl
    rw [List.append_assoc, List.cons_append, hdedents]
    simp [Mark.indented]

/-- A block with statements is entered by a deeper indentation. -/
theorem Sketch.Part.Marks.opens {trees : List Sketch} {deep : Nat}
    (h : (Sketch.Part.block trees).Marks deep line rows marks) (hne : trees ≠ [])
    (hinner : inner.headD 0 = width) (hdeep : width < deep) :
    Opens inner deep line rows (deep :: inner) (.layout .indent :: marks) :=
  h.2 hne (.opens (by rw [hinner]; exact hdeep)) rfl

/-- What follows the lines of a part, after all deeper blocks are closed. -/
theorem Opens.append (h : Opens blocks width line rows inner marks)
    (h' : ∀ {deeper}, (∀ b ∈ deeper, width < b) →
      Opens (deeper ++ inner) width (line + rows.length) more inner (dedents deeper ++ others)) :
    Opens blocks width line (rows ++ more) inner (marks ++ others) := by
  obtain ⟨found, deeper, hfound, hdeeper, rfl⟩ := h
  obtain ⟨found', deeper', hfound', hdeeper', hmarks'⟩ := h' hdeeper
  refine ⟨found ++ found', deeper', hfound.append hfound', hdeeper', ?_⟩
  rw [List.append_assoc, hmarks', List.append_assoc]

/-- A blank line before a part changes nothing. -/
theorem Opens.blank {k : Nat} (h : Opens blocks width (line + 1) rows inner marks) :
    Opens blocks width line (.blank k :: rows) inner marks := by
  obtain ⟨found, deeper, hfound, hrest⟩ := h
  exact ⟨found, deeper, .blank hfound, hrest⟩

theorem opens_nil {deeper : List Nat} (h : ∀ b ∈ deeper, width < b) :
    Opens (deeper ++ inner) width line [] inner (dedents deeper) :=
  ⟨[], deeper, .nil, h, rfl⟩

/-- A condition with the block that it guards, and what follows it. -/
theorem opens_guard {kinds : List TokenKind} {kind : TokenKind} {word : String} {test : NameWord}
    {deep : Nat} {trees : List Sketch} (henters : Enters blocks width kinds inner)
    (hinner : inner.headD 0 = width) (hdeep : width < deep) (hne : trees ≠ [])
    (hhead : FillsLine line (Sketch.guardHead word test)
      [⟨kind, word, line⟩, Mark.name line test.text, ⟨.colon, ":", line⟩])
    (hbody : (Sketch.Part.block trees).Marks deep (line + 1) rows marks)
    (horelse : ∀ {deeper}, (∀ b ∈ deeper, width < b) →
      Opens (deeper ++ inner) width (line + 1 + rows.length) more inner
        (dedents deeper ++ others)) :
    Opens blocks width line (.words width (Sketch.guardHead word test) :: (rows ++ more)) inner
      (kinds.map .layout ++
        ⟨kind, word, line⟩ :: Mark.name line test.text ::
          (Mark.indented line marks ++ others)) := by
  have hguard := opens_indented (l := [_, _]) henters hdeep hhead (hbody.opens hne hinner hdeep)
  have hwhole := hguard.append fun hdeeper => by
    rw [List.length_cons, Nat.add_comm rows.length, ← Nat.add_assoc]
    exact horelse hdeeper
  rw [List.append_assoc, List.append_assoc] at hwhole
  exact hwhole

/-- A line without a block. -/
theorem opens_words {kinds : List TokenKind} {text : String} {words : List Mark}
    (henters : Enters blocks width kinds inner) (htext : FillsLine line text words) :
    Opens blocks width line [.words width text] inner
      (kinds.map .layout ++ (words ++ [.layout .newline])) := by
  refine ⟨_, [], .words henters htext .nil, nofun, ?_⟩
  simp [dedents]

/-- The marks of the lines of a layout are those of a way to write the part. -/
theorem Lays.exists_written {part : Sketch.Part} (h : Lays width line part rows) :
    ∃ marks, Written part marks ∧ part.Marks width line rows marks := by
  induction h with
  | @blank width line part k rows _ ih =>
    obtain ⟨marks, hwritten, hmarks⟩ := ih
    refine ⟨marks, hwritten, ?_⟩
    cases part with
    | stmt tree => exact fun henters hinner => (hmarks henters hinner).blank
    | block trees =>
      exact ⟨fun hdeeper hinner => (hmarks.1 hdeeper hinner).blank,
        fun hne _ _ _ henters hinner => (hmarks.2 hne henters hinner).blank⟩
    | orelse trees => exact fun hdeeper hinner => (hmarks hdeeper hinner).blank
  | ret => exact ⟨_, .ret, fun henters _ => opens_words henters (Sketch.fillsLine_retText _)⟩
  | assign =>
    exact ⟨_, .assign, fun henters _ => opens_words henters (Sketch.fillsLine_assignText _ _)⟩
  | function hdeep hne _ ih =>
    obtain ⟨marks, hwritten, hmarks⟩ := ih
    refine ⟨_, .function hwritten, fun henters hinner => ?_⟩
    exact opens_indented henters hdeep (Sketch.fillsLine_functionHead _ _)
      (hmarks.opens hne hinner hdeep)
  | branch hdeep hne _ _ ihbody ihorelse =>
    obtain ⟨marks, hwritten, hmarks⟩ := ihbody
    obtain ⟨others, hothers, hmore⟩ := ihorelse
    refine ⟨_, .branch hwritten hothers, fun henters hinner => ?_⟩
    exact opens_guard henters hinner hdeep hne (Sketch.fillsLine_if _) hmarks
      fun hdeeper => hmore hdeeper hinner
  | noElse =>
    refine ⟨[], .noElse, fun hdeeper _ => ?_⟩
    rw [List.append_nil]
    exact opens_nil hdeeper
  | @elif width inner line test body orelse rows more hdeep hne _ _ ihbody ihorelse =>
    obtain ⟨marks, hwritten, hmarks⟩ := ihbody
    obtain ⟨others, hothers, hmore⟩ := ihorelse
    refine ⟨_, .elif hwritten hothers, fun hdeeper hinner => ?_⟩
    have hopens := opens_guard (enters_of_deeper hdeeper hinner) hinner hdeep hne
      (Sketch.fillsLine_elif test) hmarks fun hdeeper => hmore hdeeper hinner
    rwa [layout_replicate] at hopens
  | @«else» width inner line body rows hdeep hne _ ih =>
    obtain ⟨marks, hwritten, hmarks⟩ := ih
    refine ⟨⟨.kwElse, "else", line⟩ :: Mark.indented line marks, .else hwritten,
      fun hdeeper hinner => ?_⟩
    have hopens := opens_indented (l := [_]) (enters_of_deeper hdeeper hinner) hdeep
      Sketch.fillsLine_else (hmarks.opens hne hinner hdeep)
    rwa [layout_replicate] at hopens
  | done =>
    refine ⟨[], .done, fun hdeeper _ => ?_, fun hne => absurd rfl hne⟩
    rw [List.append_nil]
    exact opens_nil hdeeper
  | @next width line tree trees rows more _ _ ihtree ihtrees =>
    obtain ⟨marks, hwritten, hmarks⟩ := ihtree
    obtain ⟨others, hothers, hmore⟩ := ihtrees
    -- the first statement is entered in any way, and the others after what it leaves open
    have hopens {blocks inner : List Nat} {kinds : List TokenKind}
        (henters : Enters blocks width kinds inner) (hinner : inner.headD 0 = width) :
        Opens blocks width line (rows ++ more) inner (kinds.map .layout ++ (marks ++ others)) := by
      rw [← List.append_assoc]
      exact (hmarks henters hinner).append fun hdeeper => hmore.1 hdeeper hinner
    refine ⟨_, .next hwritten hothers, fun hdeeper hinner => ?_, fun _ => hopens⟩
    rw [← layout_replicate]
    exact hopens (enters_of_deeper hdeeper hinner) hinner

end

/-- The marks of a laid out text are those of a way to write the tree. -/
theorem Lays.exists_marked {trees : List Sketch} {rows : List Row}
    (h : Lays 0 1 (.block trees) rows) : ∃ marks found last, Written (.block trees) marks ∧
      Marked [] 1 rows found last ∧ found ++ closingMarks last = marks ++ [.layout .endOfFile] := by
  obtain ⟨marks, hwritten, hmarks⟩ := h.exists_written
  have hopens : Opens ([] ++ []) 0 1 rows [] (dedents [] ++ marks) := hmarks.1 nofun rfl
  obtain ⟨found, deeper, hfound, -, hclosed⟩ := hopens
  rw [List.append_nil deeper] at hfound
  refine ⟨marks, found, deeper, hwritten, hfound, ?_⟩
  have hdedents : List.replicate deeper.length (Mark.layout .dedent) = dedents deeper := by
    rw [dedents, List.map_const']
  rw [closingMarks, hdedents, ← List.append_assoc, hclosed]
  rfl

end NoteCheck.Code
