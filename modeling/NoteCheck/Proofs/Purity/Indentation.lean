/-
# Indentation and violations

What is read of a tree of statements that is laid out in lines. The main statement,
`statements_of_laidOut`: the text of a tree is read as the tree, and what is wrong with it does not
depend on how its blocks are indented and its else parts are written.
-/
import NoteCheck.Proofs.Layout.Indented
import NoteCheck.Proofs.Purity.Spans

namespace NoteCheck.Code

/-- A text consists of lines in which trees are laid out. The last line break may be missing. -/
def LaidOut (trees : List Sketch) (code : String) : Prop :=
  ∃ rows, Lays 0 1 (.block trees) rows ∧
    (code.toList = Row.unlines rows ∨ code.toList ++ ['\n'] = Row.unlines rows)

variable {trees : List Sketch} {code : String}

/-- A laid out text has the tokens of a way to write the trees. -/
theorem LaidOut.exists_tokenize_eq (h : LaidOut trees code) :
    ∃ found last marks, tokenize code = .ok (found ++ [last]) ∧ Written (.block trees) marks ∧
      found.map Token.mark = marks ∧ last.kind = .endOfFile ∧
      ∀ t ∈ found, t.kind ≠ .endOfFile := by
  obtain ⟨rows, hlays, hcode⟩ := h
  obtain ⟨marks, spelled, blocks, hwritten, hmarked, hclosed⟩ := hlays.exists_marked
  obtain ⟨tokens, htokens, hmarks⟩ := hmarked.exists_tokenize_eq hcode
  obtain ⟨found, last, rfl, hlast, hfound⟩ := endsOnce_of_tokenize htokens
  rw [hclosed, List.map_append, List.map_singleton] at hmarks
  obtain ⟨hmarks, -⟩ := List.append_inj' hmarks rfl
  exact ⟨found, last, marks, htokens, hwritten, hmarks, hlast, hfound⟩

/-- What is read as a statement with as many nested blocks as there are tokens is a statement. -/
theorem Parse.stmt_yields {v w : TokenStream} {s : Stmt}
    (h : Yields (stmtWithin v.fuel) (Stmt.mapSpan Span.onLine) v s w) :
    Yields stmt (Stmt.mapSpan Span.onLine) v s w := by
  obtain ⟨a, hread, ha⟩ := h
  refine ⟨a, ?_, ha⟩
  rw [stmt, get_bind]
  exact hread

/-- Tokens of a way to write trees are read as the trees. -/
theorem Written.exists_parseTokens_eq {marks : List Mark} (h : Written (.block trees) marks)
    {found : List Token} {last : Token} (hmarks : found.map Token.mark = marks)
    (hlast : last.kind = .endOfFile) (hfound : ∀ t ∈ found, t.kind ≠ .endOfFile) :
    ∃ body, parseTokens (found ++ [last]) = .ok body ∧
      body.map (Stmt.mapSpan Span.onLine) = trees.map Sketch.stmt := by
  obtain ⟨first, others, htokens⟩ := List.exists_cons_of_ne_nil
    (List.append_ne_nil_of_right_ne_nil found (List.cons_ne_nil last []))
  let s := TokenStream.ofTokens first others
  obtain ⟨t, hgoes, ht⟩ :=
    TokenStream.exists_goes (s := s) htokens.symm (List.cons_ne_nil _ _) hfound
  rw [hmarks] at hgoes
  have hkind : t.kind = .endOfFile := by
    obtain ⟨hcurrent, -⟩ := List.cons.inj ht
    rw [TokenStream.kind, hcurrent, hlast]
  have hend : t.hasTokens = false := by
    rw [TokenStream.hasTokens, hkind]
    rfl
  have hmore : ∀ v, Parse.moreInBlock v = true → v.hasTokens = true := fun v hv =>
    (Bool.and_eq_true_iff.1 hv).2
  have hends : EndsChain t.kind := by
    rw [hkind]
    exact ⟨by decide, by decide⟩
  have hreads : (Sketch.Part.block trees).Reads marks := h.reads
  obtain ⟨body, hmany, hbody⟩ := hreads hgoes hends hmore hend
    fun _ hread => Parse.stmt_yields (hread _ (Nat.le_refl _))
  refine ⟨body, ?_, hbody⟩
  have hblock : Parse.block s = .ok (body, t) := hmany.manyWhile_eq_ok
  rw [htokens]
  exact parseTokens_eq_ok hblock

/-- A laid out text is read as its trees. -/
theorem LaidOut.exists_parse_eq (h : LaidOut trees code) :
    ∃ body, parse code = .ok body ∧
      body.map (Stmt.mapSpan Span.onLine) = trees.map Sketch.stmt := by
  obtain ⟨found, last, marks, htokens, hwritten, hmarks, hlast, hfound⟩ := h.exists_tokenize_eq
  obtain ⟨body, hbody, hmap⟩ := hwritten.exists_parseTokens_eq hmarks hlast hfound
  refine ⟨body, ?_, hmap⟩
  rw [parse, htokens]
  exact hbody

/-- What is wrong with a laid out text can be told from its trees. -/
theorem LaidOut.findings_eq (h : LaidOut trees code) :
    Purity.findings code = (trees.map Sketch.stmt).flatMap Purity.topStatement := by
  obtain ⟨body, hbody, hmap⟩ := h.exists_parse_eq
  have hline (s : Stmt) :
      Purity.topStatement (s.mapSpan Span.onLine) = Purity.topStatement s := by
    have hmoved := Purity.topStatement_mapSpan (g := id) Span.line_onLine s
    rwa [Prod.map_id, List.map_id] at hmoved
  rw [Purity.findings, hbody, ← hmap, List.flatMap_map]
  simp only [hline]

/-- Every text of a tree is read as the tree, with the lines on which its statements begin, and what
is wrong with it is the same for all its texts. -/
theorem statements_of_laidOut (h : LaidOut trees code) :
    (∃ body, parse code = .ok body ∧
      body.map (Stmt.mapSpan Span.onLine) = trees.map Sketch.stmt) ∧
    ∀ other, LaidOut trees other → ∀ source, violations code source = violations other source := by
  refine ⟨h.exists_parse_eq, fun other hother source => ?_⟩
  rw [violations, violations, h.findings_eq, hother.findings_eq]

/-- A further condition, and the same as a condition in an else part that is indented otherwise. -/
theorem statements_of_laidOut_chain :
    let a : NameWord := ⟨"a", by decide⟩
    let f : NameWord := ⟨"f", by decide⟩
    let trees : List Sketch := [.function 1 f [a]
      [.branch 2 a [.assign 3 f a] [.branch 5 f [.ret 6 f] []], .ret 7 a]]
    let flat := "def f(a):\n  if a:\n    f = a\n\n  elif f:\n   return f\n  return a\n"
    let deep := "def f(a):\n if a:\n   f = a\n else:\n  if f:\n      return f\n return a"
    LaidOut trees flat ∧ LaidOut trees deep ∧
      (∃ body, parse flat = .ok body ∧
        body.map (Stmt.mapSpan Span.onLine) = trees.map Sketch.stmt) ∧
      violations flat "notes.md" = violations deep "notes.md" := by
  intro a f trees flat deep
  have hassign (width : Nat) : Lays width 3 (.block [.assign 3 f a]) _ := .next .assign .done
  have hret (width : Nat) : Lays width 6 (.block [.ret 6 f]) _ := .next .ret .done
  have hlast (width : Nat) : Lays width 7 (.block [.ret 7 a]) _ := .next .ret .done
  have hflat : LaidOut trees flat := by
    have hrest : Lays 2 4 (.orelse [.branch 5 f [.ret 6 f] []]) _ :=
      .blank (k := 0) (.elif (by decide) nofun (hret 3) .noElse)
    have hbranch : Lays 2 2 (.stmt (.branch 2 a [.assign 3 f a] [.branch 5 f [.ret 6 f] []])) _ :=
      .branch (by decide) nofun (hassign 4) hrest
    have hbody := Lays.next hbranch (hlast 2)
    exact ⟨_, .next (.function (by decide) nofun hbody) .done, .inl (by decide +kernel)⟩
  have hdeep : LaidOut trees deep := by
    have hinner : Lays 2 5 (.stmt (.branch 5 f [.ret 6 f] [])) _ :=
      .branch (by decide) nofun (hret 6) .noElse
    have hrest : Lays 1 4 (.orelse [.branch 5 f [.ret 6 f] []]) _ :=
      .else (by decide) nofun (.next hinner .done)
    have hbranch : Lays 1 2 (.stmt (.branch 2 a [.assign 3 f a] [.branch 5 f [.ret 6 f] []])) _ :=
      .branch (by decide) nofun (hassign 3) hrest
    have hbody := Lays.next hbranch (hlast 1)
    exact ⟨_, .next (.function (by decide) nofun hbody) .done, .inr (by decide +kernel)⟩
  obtain ⟨hread, hsame⟩ := statements_of_laidOut hflat
  exact ⟨hflat, hdeep, hread, hsame deep hdeep "notes.md"⟩

end NoteCheck.Code
