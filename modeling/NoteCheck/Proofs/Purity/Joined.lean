/-
# Violations of one text after another

Where a line begins at the end of a first text, outside brackets, a second text after it is read as
by itself, so many lines further down. The main statement, `violations_append_iff`: the violations
of both texts are those of the first one and then those of the second one, unless the first text
ends in a block and the first line of the second one that is not blank holds no token.
-/
import NoteCheck.Proofs.Grammar.Block
import NoteCheck.Proofs.Grammar.Marks
import NoteCheck.Proofs.Layout.AfterBlock
import NoteCheck.Proofs.Layout.TwoTexts
import NoteCheck.Proofs.Purity.Spans

namespace NoteCheck.Code

open Parse

/-- A first text is read, before a second one, up to the beginning of a line outside brackets. -/
structure MeetAtLine (a b : String) (found : List Token) (r : Reader) : Prop where
  reads : (Reader.ofText (a ++ b)).Reads found r
  rest : r.rest = b.toList
  lineStart : r.atLineStart = true
  depth : r.depth = 0

variable {a b code : String} {found : List Token} {r : Reader} {body others : List Stmt}

/-! ## Tokens -/

theorem lined_of_tokenize {lines : List Token} {stop : Token}
    (h : tokenize code = .ok (lines ++ [stop])) : Lined lines ∧ stop.kind = .endOfFile := by
  obtain ⟨lines', stop', hsame, hlined, hstop⟩ := exists_lined_of_tokenize h
  obtain ⟨rfl, hlast⟩ := List.append_inj' hsame rfl
  rw [List.singleton_inj.1 hlast]
  exact ⟨hlined, hstop⟩

namespace MeetAtLine

theorem toList_append (h : MeetAtLine a b found r) : (a ++ b).toList = a.toList ++ r.rest := by
  rw [h.rest, String.toList_append]

/-- The reader where the texts meet. -/
theorem eq_atLine (h : MeetAtLine a b found r) :
    r = .atLine r.blocks (1 + a.toList.count '\n') b.toList := by
  rw [← h.rest]
  exact (h.reads.eq_atLine h.toList_append h.lineStart).1

theorem blocks_pos (h : MeetAtLine a b found r) : ∀ n ∈ r.blocks, 0 < n :=
  h.reads.blocks_pos nofun

/-- The first text ends with the ends of its blocks. -/
theorem tokenize_left (h : MeetAtLine a b found r) : ∃ closed stop,
    tokenize a = .ok (found ++ closed ++ [stop]) ∧
      closed.map Token.shape = List.replicate r.blocks.length (.dedent, "") := by
  refine ⟨r.blocks.map fun _ => (r.leaving []).marker .dedent, (r.leaving []).marker .endOfFile,
    ?_, ?_⟩
  · rw [tokenize_of_reads h.reads h.rest h.lineStart, Reader.finish]
    have hbetween : (r.leaving []).betweenLines = true := by
      rw [h.eq_atLine]
      rfl
    rw [if_pos hbetween, List.nil_append, ← List.append_assoc]
    rfl
  · rw [List.map_map, ← List.map_const']
    rfl

/-- The tokens of both texts are those of the first one and what is found after them. -/
theorem tokenize_append (h : MeetAtLine a b found r) :
    tokenize (a ++ b) = r.tokens.map (found ++ ·) := h.reads.tokens_eq

end MeetAtLine

/-! ## Statements -/

/-- The statements of the first text are read before whatever tokens follow it. -/
theorem MeetAtLine.exists_block (h : MeetAtLine a b found r) (ha : parse a = .ok body)
    {closed : List Token} {next : Token} (ahead : List Token)
    (hclosed : closed.map Token.shape = List.replicate r.blocks.length (.dedent, ""))
    (hnext : continuesBlock next.kind = false) : ∃ first tokens body' v,
      found ++ (closed ++ next :: ahead) = first :: tokens ∧
      body.map (Stmt.mapSpan Span.onLine) = body'.map (Stmt.mapSpan Span.onLine) ∧
      v.tokens = next :: ahead ∧ (Stuck v → Stuck (.ofTokens first tokens)) ∧
      ∀ {more w}, block v = .ok (more, w) →
        block (.ofTokens first tokens) = .ok (body' ++ more, w) := by
  obtain ⟨tokens, htokens, hparse⟩ := exists_tokens_of_parse ha
  obtain ⟨closed', stop, hleft, hclosed'⟩ := h.tokenize_left
  obtain rfl := Except.ok.inj (htokens.symm.trans hleft)
  obtain ⟨hlined, hstop⟩ := lined_of_tokenize hleft
  let c : Comparison :=
    ⟨Span.onLine, Span.onLine, fun _ _ => rfl, fun _ _ => rfl, next, ahead, hnext⟩
  -- the ends of blocks may stand elsewhere in the whole text, but they are alike
  have hends : List.Forall₂ c.Like closed' closed := by
    have hshapes : List.Forall₂ (· = ·) (closed'.map Token.shape) (closed.map Token.shape) := by
      rw [hclosed, hclosed']
      exact List.forall₂_refl _
    rw [List.forall₂_map_left_iff, List.forall₂_map_right_iff] at hshapes
    have hdedents : ∀ t ∈ closed', t.kind = .dedent := fun t ht =>
      congrArg Prod.fst (List.forall_mem_map.1 (List.eq_replicate_iff.1 hclosed').2 t ht)
    refine ((List.forall₂_and_left closed' closed).2 ⟨hdedents, hshapes⟩).imp fun t _ h => ?_
    refine ⟨h.2, fun hlayout => ?_⟩
    rw [h.1] at hlayout
    cases hlayout
  have hlike : List.Forall₂ c.Like (found ++ closed') (found ++ closed) :=
    List.rel_append (List.forall₂_same.2 fun t _ => ⟨rfl, fun _ => rfl⟩) hends
  obtain ⟨first', others', hfirst'⟩ := List.exists_cons_of_ne_nil
    (List.append_ne_nil_of_right_ne_nil (found ++ closed') (List.cons_ne_nil stop []))
  obtain ⟨first, tokens, hfirst⟩ := List.exists_cons_of_ne_nil
    (List.append_ne_nil_of_right_ne_nil (found ++ closed) (List.cons_ne_nil next ahead))
  rw [hfirst'] at hparse
  obtain ⟨u, hblock⟩ := exists_block_of_parseTokens hparse
  have hreached : c.Reached (.ofTokens first' others') (.ofTokens first tokens) :=
    hlined.reached hstop hlike hfirst'.symm hfirst.symm
  obtain ⟨body', v, hbody, hv, hstuck, hmore⟩ := hreached.exists_block hblock
  exact ⟨first, tokens, body', v, by rw [← hfirst, List.append_assoc], hbody, hv, hstuck, hmore⟩

/-- What comes of a list of statements of which only the lines are known. -/
theorem flatMap_topStatement_map {f : Span → Span} {g : Nat → Nat}
    (hf : ∀ s, (f s).line = g s.line) (body : List Stmt) :
    (body.map (Stmt.mapSpan f)).flatMap Purity.topStatement =
      (body.flatMap Purity.topStatement).map (Prod.map g id) := by
  rw [List.flatMap_map, List.map_flatMap]
  exact congrArg body.flatMap (funext fun s => Purity.topStatement_mapSpan hf s)

theorem flatMap_topStatement_onLine (body : List Stmt) :
    (body.map (Stmt.mapSpan Span.onLine)).flatMap Purity.topStatement =
      body.flatMap Purity.topStatement := by
  rw [flatMap_topStatement_map (f := Span.onLine) (g := id) fun _ => rfl, Prod.map_id, List.map_id]

/-- The tokens of the second text follow the ends of the blocks of the first one. -/
theorem MeetAtLine.exists_closed (h : MeetAtLine a b found r) {tokens : List Token}
    (htokens : tokenize b = .ok tokens) (hindent : ∀ t ∈ tokens.head?, t.kind ≠ .indent)
    (hhollow : ¬(r.blocks ≠ [] ∧ Hollow b.toList)) : ∃ closed,
      r.tokens = .ok (closed ++ tokens.map (Token.down (a.toList.count '\n'))) ∧
        closed.map Token.shape = List.replicate r.blocks.length (.dedent, "") := by
  have hdown : (Reader.atLine [] (1 + a.toList.count '\n') b.toList).tokens =
      .ok (tokens.map (Token.down (a.toList.count '\n'))) :=
    Reader.tokens_down (r := .atLine [] 1 b.toList) htokens
  have hr := congrArg Reader.tokens h.eq_atLine
  by_cases hblocks : r.blocks = []
  · rw [hblocks] at hr ⊢
    exact ⟨[], hr.trans hdown, rfl⟩
  · rw [hr]
    exact Reader.exists_tokens_after_blocks h.blocks_pos hdown
      (fun hline => hhollow ⟨hblocks, hline⟩) (forall_head?_down (p := (· ≠ .indent)) hindent _)

/-- Both texts are read as the statements of the first one and then those of the second one. -/
theorem MeetAtLine.exists_parse_append (h : MeetAtLine a b found r) (ha : parse a = .ok body)
    (hb : parse b = .ok others) (hhollow : ¬(r.blocks ≠ [] ∧ Hollow b.toList)) :
    ∃ body' others', parse (a ++ b) = .ok (body' ++ others') ∧
      body.map (Stmt.mapSpan Span.onLine) = body'.map (Stmt.mapSpan Span.onLine) ∧
      others.map (Stmt.mapSpan fun s => (s.down (a.toList.count '\n')).onLine) =
        others'.map (Stmt.mapSpan Span.onLine) := by
  obtain ⟨tokens, htokens, hparse⟩ := exists_tokens_of_parse hb
  obtain ⟨closed, hrest, hclosed⟩ :=
    h.exists_closed htokens (head_ne_indent_of_parseTokens hparse) hhollow
  cases tokens with
  | nil =>
    obtain ⟨lines, stop, hnil, -⟩ := exists_lined_of_tokenize htokens
    exact absurd hnil.symm (List.append_ne_nil_of_right_ne_nil lines (List.cons_ne_nil _ _))
  | cons next ahead =>
    obtain ⟨first, all, body', v, hall, hbody, hv, -, hmore⟩ :=
      h.exists_block ha (ahead.map (Token.down (a.toList.count '\n'))) hclosed
        (show continuesBlock (next.down (a.toList.count '\n')).kind = false from
          continuesBlock_head_of_parseTokens hparse next rfl)
    obtain ⟨u, hblock⟩ := exists_block_of_parseTokens hparse
    -- the tokens of the second text are its own, moved down
    have hlike :
        List.Forall₂ (Token.Like (fun s => (s.down (a.toList.count '\n')).onLine) Span.onLine)
        (next :: ahead) ((next :: ahead).map (Token.down (a.toList.count '\n'))) :=
      List.forall₂_map_right_iff.2 (List.forall₂_same.2 fun t _ => ⟨rfl, fun _ => rfl⟩)
    obtain ⟨others', w, hread, hothers⟩ := exists_block_of_like (fun _ _ => rfl) (fun _ _ => rfl)
      htokens hlike (s := .ofTokens next ahead) rfl hv hblock
    refine ⟨body', others', ?_, hbody, hothers⟩
    rw [parse, h.tokenize_append, hrest]
    show parseTokens (found ++ (closed ++ (next :: ahead).map (Token.down _))) = _
    rw [List.map_cons, hall]
    exact parseTokens_eq_ok (hmore hread)

/-- No statement begins where the line of the second text without a token ends. -/
theorem MeetAtLine.parse_append_ne_ok (h : MeetAtLine a b found r) (ha : parse a = .ok body)
    (hb : parse b = .ok others) (hblocks : r.blocks ≠ []) (hhollow : Hollow b.toList)
    (all : List Stmt) : parse (a ++ b) ≠ .ok all := by
  intro hall
  obtain ⟨whole, hwhole, hall⟩ := exists_tokens_of_parse hall
  obtain ⟨tokens, htokens, hparse⟩ := exists_tokens_of_parse hb
  have hdown : (Reader.atLine [] (1 + a.toList.count '\n') b.toList).tokens =
      .ok (tokens.map (Token.down (a.toList.count '\n'))) :=
    Reader.tokens_down (r := .atLine [] 1 b.toList) htokens
  rw [h.tokenize_append, congrArg Reader.tokens h.eq_atLine] at hwhole
  obtain ⟨rest, hrest, rfl⟩ := Results.map_eq_ok.1 hwhole
  obtain ⟨closed, t, ahead, rfl, hclosed, ht⟩ :=
    Reader.exists_newline_of_hollow hhollow h.blocks_pos
    hblocks hdown
      (forall_head?_down (p := (· ≠ .indent)) (head_ne_indent_of_parseTokens hparse) _) hrest
  obtain ⟨first, all', body', v, hsame, -, hv, hstuck, -⟩ :=
    h.exists_block ha ahead hclosed (show continuesBlock t.kind = false by rw [ht]; rfl)
  have hnewline : v.kind = .newline := by
    rw [TokenStream.kind, (List.cons.inj hv).1, ht]
  rw [hsame] at hall
  exact (hstuck (stuck_of_newline hnewline)).parseTokens_ne_ok hall

/-- Two texts that meet at the beginning of a line have the violations of the first one and then, so
many lines further down, those of the second one, just if it is not the case that blocks of the
first one are open there and the first line of the second one that is not blank holds no token. -/
theorem violations_append_iff (h : MeetAtLine a b found r) (ha : parse a = .ok body)
    (hb : parse b = .ok others) (source : String) :
    ((∃ all, parse (a ++ b) = .ok all) ∧ violations (a ++ b) source =
      violations a source ++ (violations b source).map fun v =>
        { v with line := v.line + a.toList.count '\n' }) ↔
      ¬(r.blocks ≠ [] ∧ Hollow b.toList) := by
  constructor
  · rintro ⟨⟨all, hall⟩, -⟩ ⟨hblocks, hhollow⟩
    exact h.parse_append_ne_ok ha hb hblocks hhollow all hall
  · intro hhollow
    obtain ⟨body', others', hall, hbody, hothers⟩ := h.exists_parse_append ha hb hhollow
    refine ⟨⟨_, hall⟩, ?_⟩
    have hfirst : body'.flatMap Purity.topStatement = body.flatMap Purity.topStatement := by
      have hlines := congrArg (List.flatMap Purity.topStatement) hbody
      rw [flatMap_topStatement_onLine, flatMap_topStatement_onLine] at hlines
      exact hlines.symm
    have hsecond : others'.flatMap Purity.topStatement =
        (others.flatMap Purity.topStatement).map (Prod.map (· + a.toList.count '\n') id) := by
      have hlines := congrArg (List.flatMap Purity.topStatement) hothers
      rw [flatMap_topStatement_map (g := (· + a.toList.count '\n')) fun _ => rfl,
        flatMap_topStatement_onLine] at hlines
      exact hlines.symm
    simp only [violations, Purity.findings, hall, ha, hb, List.flatMap_append, hfirst, hsecond,
      List.map_append, List.map_map]
    rfl

/-- Texts meet where a number of steps leads to the beginning of the second one. -/
theorem exists_meetAtLine {n : Nat} (h : ((Reader.steps n (.ofText (a ++ b))).toOption.map fun s =>
    (s.2.rest, s.2.atLineStart, s.2.depth)) = some (b.toList, true, 0)) :
    ∃ found r, MeetAtLine a b found r := by
  obtain ⟨⟨found, r⟩, hsteps, hplace⟩ := Option.map_eq_some_iff.1 h
  obtain ⟨hrest, hplace⟩ := Prod.mk.inj hplace
  obtain ⟨hstart, hdepth⟩ := Prod.mk.inj hplace
  refine ⟨found, r, Reader.reads_of_steps (n := n) ?_, hrest, hstart, hdepth⟩
  cases hread : Reader.steps n (.ofText (a ++ b)) with
  | error e =>
    rw [hread] at hsteps
    cases hsteps
  | ok s =>
    rw [hread] at hsteps
    exact congrArg Except.ok (Option.some.inj hsteps)

/-- Two functions one after the other, the second of which raises to a power. -/
theorem violations_append_of_functions :
    let a := "def f(x):\n    return x\n"
    let b := "def g(x):\n    return x ** 2\n"
    violations (a ++ b) "notes.md" = [⟨"notes.md", 4, .impure (.operator .pow)⟩] ∧
      violations (a ++ b) "notes.md" =
        violations a "notes.md" ++ (violations b "notes.md").map fun v =>
          { v with line := v.line + a.toList.count '\n' } := by
  intro a b
  obtain ⟨body, hbody⟩ : ∃ body, parse a = .ok body := Results.exists_of_isOk (by decide +kernel)
  obtain ⟨others, hothers⟩ : ∃ others, parse b = .ok others :=
    Results.exists_of_isOk (by decide +kernel)
  obtain ⟨found, r, hmeet⟩ := exists_meetAtLine (a := a) (b := b) (n := 12) (by decide +kernel)
  have hfirst : Lexeme.next? (b.toList.dropWhile Reader.isIndent) =
      some (.token .kwDef "def".toList, " g(x):\n    return x ** 2\n".toList) := by decide +kernel
  have hhollow : ¬Hollow b.toList := not_hollow_of_token (by decide +kernel) hfirst
  exact ⟨by decide +kernel,
    ((violations_append_iff hmeet hbody hothers "notes.md").2 fun h => hhollow h.2).2⟩

/-- A function, and after it a line that goes on in an empty one: both are accepted by themselves,
and the texts meet at the beginning of a line, but one after the other they cannot be read. -/
theorem violations_append_ne_of_hollow :
    let a := "def f(x):\n    return x\n"
    let b := "\\\n\n"
    (∃ found r, MeetAtLine a b found r) ∧ violations a "notes.md" = [] ∧
      violations b "notes.md" = [] ∧ (parse a).isOk = true ∧ (parse b).isOk = true ∧
      (parse (a ++ b)).isOk = false ∧ violations (a ++ b) "notes.md" ≠ [] := by
  intro a b
  exact ⟨exists_meetAtLine (n := 12) (by decide +kernel), by decide +kernel, by decide +kernel,
    by decide +kernel, by decide +kernel, by decide +kernel, by decide +kernel⟩

end NoteCheck.Code
