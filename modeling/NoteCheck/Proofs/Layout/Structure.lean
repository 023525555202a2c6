/-
# The structure of layout

The marks of layout that reading finds fit together, whatever the text: every block that begins
ends, lines end once and only outside brackets, and a block begins where a line does. The main
statement, `isLaidOut_of_tokenize`, is about the kinds of the tokens; it follows from what a reader
keeps between its steps, `Reader.Keeps`.
-/
import NoteCheck.Proofs.Layout.Coverage
import Mathlib.Data.List.Chain

namespace NoteCheck.Code

/-! ## Kinds in a row -/

namespace TokenKind

/-- A mark of layout inside a block: the end of a line, or the beginning or the end of an indented
block. -/
def isLayout : TokenKind → Bool
  | .newline | .indent | .dedent => true
  | _ => false

/-- The number of open brackets after tokens of the given kinds. -/
def openAfter (kinds : List TokenKind) : Nat :=
  kinds.foldl (fun depth kind => kind.depthAfter depth) 0

/-- The second kind may come right after the first one: lines end once, a block begins after the
end of a line, and it does not end at once. -/
structure MayPrecede (a b : TokenKind) : Prop where
  newline : a = .newline → b ≠ .newline
  indent : b = .indent → a = .newline
  inhabited : a = .indent → b ≠ .dedent ∧ b ≠ .endOfFile

end TokenKind

open TokenKind

@[simp] theorem openAfter_nil : openAfter [] = 0 := rfl

@[simp] theorem openAfter_concat (kinds : List TokenKind) (kind : TokenKind) :
    openAfter (kinds ++ [kind]) = kind.depthAfter (openAfter kinds) := by
  rw [openAfter, List.foldl_append]
  rfl

/-- Layout opens and closes no brackets. -/
theorem depthAfter_of_isLayout {kind : TokenKind} (h : kind.isLayout = true) (depth : Nat) :
    kind.depthAfter depth = depth := by
  cases kind <;> first | rfl | cases h

/-- After layout as many brackets are open as before it. -/
theorem openAfter_mark (kinds : List TokenKind) {kind : TokenKind} (h : kind.isLayout = true) :
    openAfter (kinds ++ [kind]) = openAfter kinds := by
  rw [openAfter_concat, depthAfter_of_isLayout h]

/-- Kinds in an order that reading can find: blocks end after they have begun, no line is empty,
and neighbours may follow each other. -/
structure Orderly (kinds : List TokenKind) : Prop where
  dedents : ∀ before, before <+: kinds → before.count .dedent ≤ before.count .indent
  head : kinds.head? ≠ some .newline
  next : kinds.IsChain MayPrecede

/-- The marks of layout stand outside brackets. -/
def OutsideBrackets (kinds : List TokenKind) : Prop :=
  ∀ before kind after, kinds = before ++ kind :: after → kind.isLayout = true →
    openAfter before = 0

/-- No tokens are in order. -/
theorem Orderly.nil : Orderly [] where
  dedents := by
    intro before h
    obtain rfl := List.prefix_nil.1 h
    exact Nat.le_refl 0
  head := nofun
  next := .nil

/-- Without tokens no layout stands in brackets. -/
theorem OutsideBrackets.nil : OutsideBrackets [] := by
  intro before kind after h
  simp at h

/-- One token more keeps the order if a block is open for it to end and it may follow the last
token. -/
theorem Orderly.concat {kinds : List TokenKind} {kind : TokenKind} (h : Orderly kinds)
    (hdedent : kind = .dedent → kinds.count .dedent < kinds.count .indent)
    (hhead : kinds = [] → kind ≠ .newline)
    (hnext : ∀ last ∈ kinds.getLast?, MayPrecede last kind) : Orderly (kinds ++ [kind]) where
  dedents := by
    intro before hbefore
    -- the whole list is the only new prefix
    obtain rfl | hbefore := List.prefix_concat_iff.1 hbefore
    · have hle := h.dedents kinds (List.prefix_refl kinds)
      rw [List.count_append, List.count_append]
      by_cases hkind : kind = .dedent
      · have hlt := hdedent hkind
        rw [hkind, List.count_singleton_self]
        omega
      · have hzero : [kind].count .dedent = 0 := by simp [hkind]
        omega
    · exact h.dedents before hbefore
  head := by
    cases kinds with
    | nil =>
      intro hnewline
      exact hhead rfl (Option.some.inj hnewline)
    | cons first others => exact h.head
  next := by
    refine List.isChain_append.2 ⟨h.next, .singleton kind, ?_⟩
    intro last hlast first hfirst
    obtain rfl := Option.some.inj hfirst
    exact hnext last hlast

/-- One token more may be layout where no bracket is open. -/
theorem OutsideBrackets.concat {kinds : List TokenKind} {kind : TokenKind}
    (h : OutsideBrackets kinds) (hkind : kind.isLayout = true → openAfter kinds = 0) :
    OutsideBrackets (kinds ++ [kind]) := by
  intro before mark after hsplit hmark
  rcases List.eq_nil_or_concat after with rfl | ⟨after, last, rfl⟩
  · obtain ⟨rfl, rfl⟩ := List.append_inj' hsplit rfl |>.imp_right List.singleton_inj.1
    exact hkind hmark
  · rw [List.concat_eq_append, ← List.cons_append, ← List.append_assoc] at hsplit
    exact h before mark after (List.append_inj' hsplit rfl).1 hmark

/-- Ends of blocks are no beginnings of blocks. -/
theorem count_indent_dedents (n : Nat) : (List.replicate n TokenKind.dedent).count .indent = 0 := by
  rw [List.count_replicate, if_neg (by decide)]

/-- Ends of blocks put no beginning of a block last. -/
theorem getLast?_append_dedents {kinds : List TokenKind} (h : kinds.getLast? ≠ some .indent)
    (n : Nat) : (kinds ++ List.replicate n TokenKind.dedent).getLast? ≠ some .indent := by
  cases n with
  | zero => simpa using h
  | succ n =>
    rw [List.replicate_succ', ← List.append_assoc, List.getLast?_concat]
    decide

/-- What stands outside brackets among all tokens does so among the first ones. -/
theorem OutsideBrackets.of_append {kinds more : List TokenKind}
    (h : OutsideBrackets (kinds ++ more)) : OutsideBrackets kinds := by
  intro before kind after hsplit
  refine h before kind (after ++ more) ?_
  rw [hsplit, List.append_assoc, List.cons_append]

/-- Blocks end one after the other, as many as have begun, where a block has not just begun. -/
theorem Orderly.append_dedents {kinds : List TokenKind} (h : Orderly kinds) (n : Nat)
    (hcount : kinds.count .dedent + n ≤ kinds.count .indent)
    (hlast : kinds.getLast? ≠ some .indent) :
    Orderly (kinds ++ List.replicate n .dedent) := by
  induction n with
  | zero => rwa [List.replicate_zero, List.append_nil]
  | succ n ih =>
    rw [List.replicate_succ', ← List.append_assoc]
    refine (ih (by omega)).concat ?_ (fun _ => by decide) ?_
    · intro _
      rw [List.count_append, List.count_append, List.count_replicate_self, count_indent_dedents]
      omega
    · intro last hmem
      have hne : last ≠ .indent := fun h => getLast?_append_dedents hlast n (h ▸ hmem)
      exact ⟨fun _ => by decide, nofun, fun h => absurd h hne⟩

/-- Ends of blocks may follow where no bracket is open, and open none. -/
theorem OutsideBrackets.append_dedents {kinds : List TokenKind} (h : OutsideBrackets kinds)
    (n : Nat) (hopen : n ≠ 0 → openAfter kinds = 0) :
    OutsideBrackets (kinds ++ List.replicate n .dedent) ∧
      openAfter (kinds ++ List.replicate n .dedent) = openAfter kinds := by
  induction n with
  | zero =>
    rw [List.replicate_zero, List.append_nil]
    exact ⟨h, rfl⟩
  | succ n ih =>
    have hzero := hopen (Nat.succ_ne_zero n)
    obtain ⟨houtside, hdepth⟩ := ih fun _ => hzero
    rw [List.replicate_succ', ← List.append_assoc]
    refine ⟨houtside.concat fun _ => hdepth.trans hzero, ?_⟩
    rw [openAfter_mark _ rfl, hdepth]

/-! ## What a reader keeps -/

/-- The kinds of some tokens. -/
def kindsOf (tokens : List Token) : List TokenKind := tokens.map (·.kind)

@[simp] theorem kindsOf_nil : kindsOf [] = [] := rfl

@[simp] theorem kindsOf_append (a b : List Token) : kindsOf (a ++ b) = kindsOf a ++ kindsOf b :=
  List.map_append

/-- Tokens that stand for pieces of the text are no marks of layout. -/
theorem Lexeme.isLayout_of_next? {cs text rest : List Char} {kind : TokenKind}
    (h : next? cs = some (token kind text, rest)) : kind.isLayout = false :=
  kind_of_next? (p := fun kind => kind.isLayout = false) rfl rfl rfl rfl (by decide) (by decide) h

/-- The kind and the text of a token. The text of a mark of layout says nothing. -/
def Token.shape (t : Token) : TokenKind × String :=
  (t.kind, if t.kind.isLayout then "" else t.text)

/-- The shape of a token has its kind. -/
theorem Token.kind_eq_of_shape {a b : Token} (h : a.shape = b.shape) : a.kind = b.kind :=
  congrArg Prod.fst h

/-- The shape of a token that is no layout has its text. -/
theorem Token.text_eq_of_shape {a b : Token} (h : a.shape = b.shape)
    (hlayout : a.kind.isLayout = false) : a.text = b.text := by
  have htext := congrArg Prod.snd h
  rwa [shape, shape, if_neg (by simp [hlayout]), if_neg (by simp [← kind_eq_of_shape h, hlayout])]
    at htext

namespace Reader

/-- What a reader keeps of the kinds that it has found: the open brackets, as many open blocks as
have begun and not ended, and whether a line has just ended. -/
structure Keeps (r : Reader) (kinds : List TokenKind) : Prop where
  depth : r.depth = openAfter kinds
  blocks : kinds.count .dedent + r.blocks.length = kinds.count .indent
  between : r.betweenLines = true ↔ kinds = [] ∨ kinds.getLast? = some .newline
  lineStart : r.atLineStart = true → r.betweenLines = true ∧ r.depth = 0
  orderly : Orderly kinds
  outside : OutsideBrackets kinds

/-- At the beginning of a text the structure is that of no tokens. -/
theorem keeps_ofText (code : String) : (ofText code).Keeps [] where
  depth := rfl
  blocks := rfl
  between := iff_of_true rfl (.inl rfl)
  lineStart := fun _ => ⟨rfl, rfl⟩
  orderly := .nil
  outside := .nil

/-- Between lines the last token is the end of one. -/
theorem Keeps.last_eq_newline {r : Reader} {kinds : List TokenKind} (h : r.Keeps kinds)
    (hbetween : r.betweenLines = true) : ∀ last ∈ kinds.getLast?, last = .newline := by
  intro last hlast
  obtain rfl | hnewline := h.between.1 hbetween
  · cases hlast
  · exact Option.some.inj (hlast.symm.trans hnewline)

/-- Within a line there is a last token, and it is not the end of a line. -/
theorem Keeps.last_ne_newline {r : Reader} {kinds : List TokenKind} (h : r.Keeps kinds)
    (hbetween : r.betweenLines = false) :
    kinds ≠ [] ∧ ∀ last ∈ kinds.getLast?, last ≠ .newline := by
  have hnot := mt h.between.2 (by rw [hbetween]; exact Bool.false_ne_true)
  rw [not_or] at hnot
  refine ⟨hnot.1, fun last hlast hnewline => hnot.2 ?_⟩
  rw [← hnewline]
  exact hlast

/-- Opening and closing blocks at the beginning of a line keeps the structure. -/
theorem Keeps.enterBlock {r next : Reader} {width : Nat} {found : List Token}
    {kinds : List TokenKind} (hr : r.Keeps kinds) (hbetween : r.betweenLines = true)
    (hdepth : r.depth = 0) (hstart : r.atLineStart = false)
    (h : r.EntersBlock width found next) : next.Keeps (kinds ++ kindsOf found) := by
  have hzero : openAfter kinds = 0 := hr.depth.symm.trans hdepth
  have hlast := hr.last_eq_newline hbetween
  cases h with
  | opens =>
    show Keeps _ (kinds ++ [.indent])
    refine ⟨?_, ?_, ?_, ?_, ?_, ?_⟩
    · exact hr.depth.trans (openAfter_mark _ rfl).symm
    · simpa [List.count_append, ← Nat.add_assoc] using hr.blocks
    · simp
    · intro hline
      exact absurd (hstart.symm.trans hline) Bool.false_ne_true
    -- an indentation comes after the end of a line
    · refine hr.orderly.concat nofun (fun _ => by decide) ?_
      intro last hmem
      obtain rfl := hlast last hmem
      exact ⟨fun _ => by decide, fun _ => rfl, nofun⟩
    · exact hr.outside.concat fun _ => hzero
  | closes =>
    have hkinds : kindsOf ((r.blocks.takeWhile (width < ·)).map fun _ => r.marker .dedent) =
        List.replicate (r.blocks.takeWhile (width < ·)).length .dedent := by
      rw [kindsOf, List.map_map, ← List.map_const']
      rfl
    have hlength : (r.blocks.takeWhile (width < ·)).length +
        (r.blocks.dropWhile (width < ·)).length = r.blocks.length := by
      rw [← List.length_append, List.takeWhile_append_dropWhile]
    have hblocks := hr.blocks
    obtain ⟨houtside, hopen⟩ := hr.outside.append_dedents
      (r.blocks.takeWhile (width < ·)).length fun _ => hzero
    rw [hkinds]
    refine ⟨hr.depth.trans hopen.symm, ?_, ?_, ?_, ?_, houtside⟩
    -- as many blocks are gone as there are dedents
    · rw [List.count_append, List.count_append, List.count_replicate_self, count_indent_dedents]
      dsimp only
      omega
    · cases hclosed : r.blocks.takeWhile (width < ·) with
      | nil => simpa using hr.between
      | cons first others =>
        rw [List.length_cons, List.replicate_succ', ← List.append_assoc]
        simp
    · intro hline
      exact absurd (hstart.symm.trans hline) Bool.false_ne_true
    · refine hr.orderly.append_dedents _ (by omega) ?_
      intro hindent
      exact absurd (hlast _ hindent) (by decide)

/-- Reading the indentation of a line keeps the structure, and goes into the line. -/
theorem Keeps.enterLine {r next : Reader} {found : List Token} {kinds : List TokenKind}
    (hr : r.Keeps kinds) (h : r.enterLine = .ok (found, next)) :
    next.Keeps (kinds ++ kindsOf found) ∧ next.atLineStart = false := by
  have hpast : r.pastIndent.Keeps kinds :=
    ⟨hr.depth, hr.blocks, hr.between, nofun, hr.orderly, hr.outside⟩
  cases enterLine_eq_ok.1 h with
  | within hwithin =>
    rw [kindsOf_nil, List.append_nil]
    exact ⟨hr, Bool.eq_false_iff.2 fun hstart => hwithin hstart (hr.lineStart hstart).2⟩
  | blank =>
    rw [kindsOf_nil, List.append_nil]
    exact ⟨hpast, rfl⟩
  | block hstart hdepth _ hblock =>
    exact ⟨hpast.enterBlock (hr.lineStart hstart).1 hdepth rfl hblock, hblock.sameLine.atLineStart⟩

/-- Taking up a lexeme inside a line keeps the structure. -/
theorem Keeps.lexeme {r next : Reader} {found : List Token} {kinds : List TokenKind}
    (hr : r.Keeps kinds) (hline : r.atLineStart = false) (h : r.lexeme = .ok (found, next)) :
    next.Keeps (kinds ++ kindsOf found) := by
  obtain ⟨l, rest, hnext, htake⟩ | ⟨-, rfl, rfl⟩ := lexeme_eq_ok.1 h
  · cases take_eq_iff.1 htake with
    | @token kind text =>
      have hkind := Lexeme.isLayout_of_next? hnext
      have hnewline : kind ≠ .newline := by rintro rfl; cases hkind
      have hindent : kind ≠ .indent := by rintro rfl; cases hkind
      have hdedent : kind ≠ .dedent := by rintro rfl; cases hkind
      have hend : kind ≠ .endOfFile := Lexeme.kind_ne_endOfFile hnext
      refine ⟨?_, ?_, ?_, ?_, ?_, ?_⟩
      · exact (congrArg kind.depthAfter hr.depth).trans (openAfter_concat ..).symm
      · simpa [kindsOf, List.count_append, past, List.count_singleton, hindent, hdedent]
          using hr.blocks
      · simp [kindsOf, hnewline]
      · intro hstart
        exact absurd (hline.symm.trans hstart) Bool.false_ne_true
      · exact hr.orderly.concat (absurd · hdedent) (fun _ => hnewline) fun _ _ =>
          ⟨fun _ => hnewline, (absurd · hindent), fun _ => ⟨hdedent, hend⟩⟩
      · exact hr.outside.concat fun hlayout => absurd (hkind.symm.trans hlayout) Bool.false_ne_true
    | lineEnd hdepth hbetween =>
      obtain ⟨hne, hlast⟩ := hr.last_ne_newline hbetween
      show Keeps _ (kinds ++ [.newline])
      refine ⟨?_, ?_, ?_, ?_, ?_, ?_⟩
      · exact hr.depth.trans (openAfter_mark _ rfl).symm
      · simpa [past, List.count_append] using hr.blocks
      · simp
      · exact fun _ => ⟨rfl, hdepth⟩
      · refine hr.orderly.concat nofun (absurd · hne) fun last hmem => ?_
        exact ⟨fun h => absurd h (hlast last hmem), nofun, fun _ => by decide⟩
      · exact hr.outside.concat fun _ => hr.depth.symm.trans hdepth
    -- a line break without a token: at depth 0 the reader is between lines already
    | lineBreak hstays =>
      rw [kindsOf_nil, List.append_nil]
      refine ⟨hr.depth, hr.blocks, hr.between, fun hstart => ?_, hr.orderly, hr.outside⟩
      have hdepth : r.depth = 0 := beq_iff_eq.1 hstart
      exact ⟨hstays hdepth, hdepth⟩
    | gap =>
      rw [kindsOf_nil, List.append_nil]
      exact ⟨hr.depth, hr.blocks, hr.between, hr.lineStart, hr.orderly, hr.outside⟩
  · rwa [kindsOf_nil, List.append_nil]

/-- A step keeps the structure. -/
theorem Keeps.step {r next : Reader} {found : List Token} {kinds : List TokenKind}
    (hr : r.Keeps kinds) (h : r.step = .ok (found, next)) :
    next.Keeps (kinds ++ kindsOf found) := by
  obtain ⟨layout, entered, taken, hline, hlexeme, rfl⟩ := step_eq_ok_iff.1 h
  obtain ⟨hentered, hstart⟩ := hr.enterLine hline
  rw [kindsOf_append, ← List.append_assoc]
  exact hentered.lexeme hstart hlexeme

/-- Reading on by some steps keeps the structure. -/
theorem Reads.keeps {r last : Reader} {found : List Token} (h : r.Reads found last) :
    ∀ {kinds}, r.Keeps kinds → last.Keeps (kinds ++ kindsOf found) := by
  induction h with
  | refl =>
    intro kinds hr
    rwa [kindsOf_nil, List.append_nil]
  | step _ hstep _ ih =>
    intro kinds hr
    rw [kindsOf_append, ← List.append_assoc]
    exact ih (hr.step hstep)

end Reader

/-! ## The whole text -/

/-- The marks with which the last line ends: the blocks that are open there end, and the text. -/
def closingKinds (blocks : Nat) : List TokenKind :=
  .newline :: List.replicate blocks .dedent ++ [.endOfFile]

/-- The structure of the kinds that a text is read as: they are the mark for the end of the text
alone, or end with the marks that close the last line and all blocks; blocks end after they have
begun, as many as have begun; no line is empty; a block begins with a line, and is not empty; and
before the closing marks all marks of layout stand outside brackets. -/
structure IsLaidOut (kinds : List TokenKind) : Prop extends Orderly kinds where
  endOfFile : ∃ before, kinds = before ++ [.endOfFile] ∧ .endOfFile ∉ before
  closing : kinds = [.endOfFile] ∨
    ∃ body blocks, kinds = body ++ closingKinds blocks ∧ OutsideBrackets body
  balanced : kinds.count .dedent = kinds.count .indent

namespace Reader

/-- At the end the last line ends, if it has begun, then the blocks, and then the text. -/
theorem kindsOf_finish (r : Reader) : kindsOf r.finish =
    (if r.betweenLines then [] else [.newline]) ++ List.replicate r.blocks.length .dedent ++
      [.endOfFile] := by
  rw [finish, kindsOf_append, kindsOf_append, kindsOf, kindsOf, List.map_map, ← List.map_const']
  congr 2
  split <;> rfl

/-- The lines that a reader has found at the end of a text, the last one ended. -/
theorem Keeps.exists_lines {r : Reader} {kinds : List TokenKind} (h : r.Keeps kinds) :
    ∃ lines, kinds ++ kindsOf r.finish =
        lines ++ List.replicate r.blocks.length .dedent ++ [.endOfFile] ∧ Orderly lines ∧
      lines.count .dedent + r.blocks.length = lines.count .indent ∧
      (lines = [] ∨ ∃ body, lines = body ++ [.newline] ∧ OutsideBrackets body) := by
  cases hbetween : r.betweenLines with
  | true =>
    refine ⟨kinds, by simp [kindsOf_finish, hbetween], h.orderly, h.blocks, ?_⟩
    obtain hnil | hnewline := h.between.1 hbetween
    · exact .inl hnil
    · obtain ⟨body, rfl⟩ := List.getLast?_eq_some_iff.1 hnewline
      exact .inr ⟨body, rfl, h.outside.of_append⟩
  | false =>
    obtain ⟨hne, hlast⟩ := h.last_ne_newline hbetween
    refine ⟨kinds ++ [.newline], by simp [kindsOf_finish, hbetween], ?_, ?_,
      .inr ⟨kinds, rfl, h.outside⟩⟩
    · exact h.orderly.concat nofun (absurd · hne) fun last hmem =>
        ⟨fun h => absurd h (hlast last hmem), nofun, fun _ => by decide⟩
    · simpa [List.count_append] using h.blocks

/-- The marks at the end of a text complete the structure. -/
theorem Keeps.isLaidOut {r : Reader} {kinds : List TokenKind} (h : r.Keeps kinds)
    (hend : ∃ before, kinds ++ kindsOf r.finish = before ++ [.endOfFile] ∧
      .endOfFile ∉ before) : IsLaidOut (kinds ++ kindsOf r.finish) := by
  obtain ⟨lines, hlines, horderly, hcount, hclosing⟩ := h.exists_lines
  have hlast : lines.getLast? ≠ some .indent := by
    obtain rfl | ⟨body, rfl, -⟩ := hclosing
    · nofun
    · rw [List.getLast?_concat]
      decide
  have hended : Orderly (lines ++ List.replicate r.blocks.length .dedent) :=
    horderly.append_dedents _ (by omega) hlast
  have hwhole : Orderly (lines ++ List.replicate r.blocks.length .dedent ++ [.endOfFile]) := by
    refine hended.concat nofun (fun _ => by decide) fun last hmem => ?_
    have hne : last ≠ .indent := fun h => getLast?_append_dedents hlast _ (h ▸ hmem)
    exact ⟨fun _ => by decide, nofun, fun h => absurd h hne⟩
  rw [hlines] at hend ⊢
  refine ⟨hwhole, hend, ?_, ?_⟩
  · obtain rfl | ⟨body, rfl, houtside⟩ := hclosing
    · have hnone : r.blocks.length = 0 := by simpa using hcount
      rw [hnone]
      exact .inl rfl
    · exact .inr ⟨body, r.blocks.length, by simp [closingKinds], houtside⟩
  · simpa [List.count_append, count_indent_dedents] using hcount

end Reader

/-- The end of the text is the last token, and only that. -/
theorem EndsOnce.kindsOf {tokens : List Token} (h : EndsOnce tokens) :
    ∃ before, kindsOf tokens = before ++ [.endOfFile] ∧ .endOfFile ∉ before := by
  obtain ⟨before, last, rfl, hlast, hbefore⟩ := h
  refine ⟨Code.kindsOf before, ?_, ?_⟩
  · rw [kindsOf_append, Code.kindsOf, Code.kindsOf, List.map_singleton, hlast]
  · intro hmem
    obtain ⟨t, ht, hkind⟩ := List.mem_map.1 hmem
    exact hbefore t ht hkind

/-- What is read of a text from its beginning on has the structure of layout. -/
theorem Reader.isLaidOut_of_tokens {code : String} {tokens : List Token}
    (h : (ofText code).tokens = .ok tokens) : IsLaidOut (kindsOf tokens) := by
  have honce := (endsOnce_of_tokens h).kindsOf
  obtain ⟨found, last, hreads, ⟨-, hok⟩ | ⟨e, -, hfail⟩⟩ := (ofText code).exists_reads
  · obtain rfl := Except.ok.inj (h.symm.trans hok)
    have hkeeps := hreads.keeps (keeps_ofText code)
    rw [List.nil_append] at hkeeps
    rw [kindsOf_append] at honce ⊢
    exact hkeeps.isLaidOut honce
  · cases h.symm.trans hfail

/-- The kinds of the tokens of a text have the structure of layout. -/
theorem isLaidOut_of_tokenize {code : String} {tokens : List Token}
    (h : tokenize code = .ok tokens) : IsLaidOut (kindsOf tokens) :=
  Reader.isLaidOut_of_tokens h

/-- A block with a line break inside brackets, and a blank line after it. -/
theorem isLaidOut_of_tokenize_block :
    ∃ tokens, tokenize "if x:\n  f(\n1)\n\ny" = .ok tokens ∧ IsLaidOut (kindsOf tokens) := by
  have hok : (tokenize "if x:\n  f(\n1)\n\ny").isOk = true := by decide +kernel
  cases h : tokenize "if x:\n  f(\n1)\n\ny" with
  | error e =>
    rw [h] at hok
    cases hok
  | ok tokens => exact ⟨tokens, rfl, isLaidOut_of_tokenize h⟩

end NoteCheck.Code
