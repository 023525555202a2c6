/-
# Statements one after the other

Statements that stand at the beginning of a text are read as they are by themselves, and reading
goes on after them. The main statement, `Reached.exists_block`: of a text that begins with the
tokens of another one what is read are the statements of the other one, and then those of the tokens
that follow.
-/
import NoteCheck.Proofs.Grammar.AlikeStmt
import NoteCheck.Proofs.Grammar.TermParse

namespace NoteCheck.Code

namespace Parse

variable {s t u : TokenStream} {a : Stmt} {body more : List Stmt}

/-! ## Where no statement begins -/

/-- No statement is read before a token that opens none. -/
theorem stmt_ne_ok (hblock : s.kind.blockForm? = none) (hline : s.kind.lineForm? = none)
    (hexpr : s.kind.opensExpr = false) : stmt s ≠ .ok (a, t) := by
  intro h
  rw [stmt, get_bind, TokenStream.fuel, stmtWithin, stmtOf, get_bind, kind_bind, hblock] at h
  obtain ⟨_, v, hstmt, -⟩ := bind_eq_ok.1 h
  rw [lineStmt, kind_bind, hline] at hstmt
  obtain ⟨_, w, hlist, -⟩ := bind_eq_ok.1 hstmt
  obtain ⟨e, x, hread, -⟩ := bind_eq_ok.1 hlist
  have hopens := opensExpr_of_exprWithin (n := s.fuel) hread
  rw [hexpr] at hopens
  cases hopens

/-- No number of rounds reads statements from here to the end of the text. -/
def Stuck (s : TokenStream) : Prop :=
  ∀ n found all u, rounds (throw .exhausted) (itemRound TokenStream.hasTokens stmt) n found s ≠
    .ok (all, u)

/-- Statements are not read to the end from where none is read, before the end of the text. -/
theorem stuck_of_stmt_ne_ok (hmore : s.hasTokens = true) (h : ∀ a t, stmt s ≠ .ok (a, t)) :
    Stuck s := by
  intro n found all u hrounds
  cases n with
  | zero => exact throw_ne_ok hrounds
  | succ n =>
    obtain ⟨_, v, hround, -⟩ := bind_eq_ok.1 hrounds
    rw [itemRound, get_bind, if_pos hmore] at hround
    obtain ⟨a, w, hread, -⟩ := bind_eq_ok.1 hround
    exact h a w hread

/-- Statements are not read where none begins, before the end of the text. -/
theorem stuck_of_kind {kind : TokenKind} (hs : s.kind = kind) (hend : kind ≠ .endOfFile)
    (hblock : kind.blockForm? = none) (hline : kind.lineForm? = none)
    (hexpr : kind.opensExpr = false) : Stuck s := by
  subst hs
  exact stuck_of_stmt_ne_ok (bne_iff_ne.2 hend) fun _ _ => stmt_ne_ok hblock hline hexpr

/-- No statement begins with a line break. -/
theorem stuck_of_newline (hs : s.kind = .newline) : Stuck s :=
  stuck_of_kind hs (by decide) rfl rfl rfl

/-- Where reading gets stuck after a statement it does so before it. -/
theorem Stuck.of_stmt (h : Stuck t) (hmore : s.hasTokens = true) (hread : stmt s = .ok (a, t)) :
    Stuck s := by
  intro n found all u hrounds
  cases n with
  | zero => exact throw_ne_ok hrounds
  | succ n =>
    obtain ⟨next, v, hround, hrounds⟩ := bind_eq_ok.1 hrounds
    rw [itemRound_of_more hmore hread] at hround
    obtain ⟨rfl, rfl⟩ := Prod.mk.inj (Except.ok.inj hround)
    exact h _ _ _ _ hrounds

/-! ## Statements before others -/

/-- Statements, one after the other. -/
inductive Passes : TokenStream → List Stmt → TokenStream → Prop
  | done {v} : Passes v [] v
  | next {v a w body x} : v.hasTokens = true → stmt v = .ok (a, w) → Passes w body x →
      Passes v (a :: body) x

/-- Where reading gets stuck after some statements it does so before them. -/
theorem Passes.stuck (h : Passes s body t) (ht : Stuck t) : Stuck s := by
  induction h with
  | done => exact ht
  | next hmore hread _ ih => exact (ih ht).of_stmt hmore hread

/-- Each statement takes one of the rounds of a loop. -/
theorem Passes.rounds_eq_ok (h : Passes s body t) {n : Nat}
    (hmore : rounds (throw .exhausted) (itemRound TokenStream.hasTokens stmt) n [] t =
      .ok (more, u)) (found : List Stmt) {m : Nat} (hm : n + body.length ≤ m) :
    rounds (throw .exhausted) (itemRound TokenStream.hasTokens stmt) m found s =
      .ok (found ++ (body ++ more), u) := by
  induction h generalizing found m with
  | done =>
    have hrounds := rounds_itemRound hmore found (m := m) hm
    rwa [List.append_nil] at hrounds
  | @next s a t body _ hbegins hread _ ih =>
    rw [List.length_cons] at hm
    obtain ⟨m, rfl⟩ : ∃ k, m = k + 1 := ⟨m - 1, by omega⟩
    have hrest := ih hmore (found ++ [a]) (m := m) (by omega)
    rw [List.append_assoc] at hrest
    exact bind_eq_ok.2 ⟨_, t, itemRound_of_more hbegins hread, hrest⟩

/-- Statements before others are read together with them, if there are tokens enough. -/
theorem Passes.block_eq_ok (h : Passes s body t) (hfuel : t.fuel + body.length ≤ s.fuel)
    (hmore : block t = .ok (more, u)) : block s = .ok (body ++ more, u) :=
  h.rounds_eq_ok hmore [] hfuel

/-- A loop that reads items has a round for each of them, and a last one. -/
theorem length_lt_of_manyWhile {α : Type} {begins : TokenStream → Bool} {item : Parse α}
    {found : List α} (h : manyWhile begins item s = .ok (found, t)) : found.length < s.fuel := by
  have hrounds : ∀ n before all s, rounds (throw .exhausted) (itemRound begins item) n before s =
      .ok (all, t) → all.length < before.length + n := by
    intro n
    induction n with
    | zero => exact fun _ _ _ h => absurd h throw_ne_ok
    | succ n ih =>
      intro before all s h
      obtain ⟨next, v, hround, h⟩ := bind_eq_ok.1 h
      by_cases hs : begins s = true
      · rw [itemRound, get_bind, if_pos hs] at hround
        obtain ⟨a, w, -, hround⟩ := bind_eq_ok.1 hround
        obtain ⟨rfl, rfl⟩ := pure_eq_ok.1 hround
        have hlt := ih _ _ _ h
        rw [List.length_append, List.length_singleton] at hlt
        omega
      · rw [itemRound_of_done (Bool.eq_false_iff.2 hs)] at hround
        obtain ⟨rfl, rfl⟩ := Prod.mk.inj (Except.ok.inj hround)
        obtain ⟨rfl, rfl⟩ := pure_eq_ok.1 h
        omega
  have hlt := hrounds s.fuel [] found s h
  rwa [List.length_nil, Nat.zero_add] at hlt

end Parse

open Parse

/-! ## The same statements in two texts -/

variable {c : Comparison} {s t u : TokenStream} {body others : List Stmt}

/-- The statements of the first text stand at the beginning of the second one. -/
theorem Comparison.Reached.exists_passes (h : c.Reached s t) (hblock : block s = .ok (body, u)) :
    ∃ body' v, Passes t body' v ∧
      each Stmt.mapSpan c.left body = each Stmt.mapSpan c.right body' ∧ c.Done u v := by
  refine manyWhile_induction (P := fun s body u => ∀ t, c.Reached s t → ∃ body' v,
    Passes t body' v ∧ each Stmt.mapSpan c.left body = each Stmt.mapSpan c.right body' ∧ c.Done u v)
    ?_ ?_ hblock t h
  · intro s hdone t hst
    refine ⟨[], t, .done, rfl, hst.resolve_left fun halike => halike.kind_ne ?_⟩
    rwa [TokenStream.hasTokens, bne_eq_false_iff_eq] at hdone
  · intro s a u body w hmore hread ih t hst
    have halike := hst.alike (bne_iff_ne.1 hmore)
    obtain ⟨a', v, hread', haa', hvv'⟩ := agree_stmt halike hread
    obtain ⟨body', w', hpasses, hbody, hdone⟩ := ih v hvv'
    have hmore' : t.hasTokens = true := by
      rwa [TokenStream.hasTokens, ← halike.kind]
    exact ⟨a' :: body', w', .next hmore' hread' hpasses, congrArg₂ List.cons haa' hbody, hdone⟩

/-- The statements of the first text are read at the beginning of the second one, and reading goes
on with what follows them. -/
theorem Comparison.Reached.exists_block (h : c.Reached s t) (hblock : block s = .ok (body, u)) :
    ∃ body' v, each Stmt.mapSpan c.left body = each Stmt.mapSpan c.right body' ∧
      v.tokens = c.next :: c.ahead ∧ (Stuck v → Stuck t) ∧
      ∀ {more w}, block v = .ok (more, w) → block t = .ok (body' ++ more, w) := by
  obtain ⟨body', v, hpasses, hbody, hdone⟩ := h.exists_passes hblock
  refine ⟨body', v, hbody, hdone.tokens, hpasses.stuck, hpasses.block_eq_ok ?_⟩
  have hlength := congrArg List.length hbody
  rw [List.length_map, List.length_map] at hlength
  have hrounds := length_lt_of_manyWhile hblock
  have hv : v.fuel = c.ahead.length + 1 := congrArg List.length hdone.tokens
  have ht := h.fuel_eq
  omega

/-- Lines are read alike wherever they stand, whatever the token after them is that ends the text.
-/
theorem exists_block_of_lined {f g : Span → Span} (hf : ∀ a b, f (a.through b) = f a)
    (hg : ∀ a b, g (a.through b) = g a) {lines lines' : List Token} {stop last : Token}
    (hlined : Lined lines) (hstop : stop.kind = .endOfFile) (hlast : last.kind = .endOfFile)
    (hlike : List.Forall₂ (Token.Like f g) lines lines') (hs : s.tokens = lines ++ [stop])
    (ht : t.tokens = lines' ++ [last]) (hblock : block s = .ok (body, u)) :
    ∃ body' w, block t = .ok (body', w) ∧
      body.map (Stmt.mapSpan f) = body'.map (Stmt.mapSpan g) := by
  let c : Comparison := ⟨f, g, hf, hg, last, [], by rw [hlast]; rfl⟩
  obtain ⟨body', v, hbody, hv, -, hwhole⟩ :=
    (hlined.reached (c := c) hstop hlike hs ht).exists_block hblock
  have hdone : v.hasTokens = false := by
    rw [TokenStream.hasTokens, TokenStream.kind, (List.cons.inj hv).1, hlast]
    rfl
  have hnone : block v = .ok ([], v) := Many.manyWhile_eq_ok (.done hdone)
  exact ⟨body', v, by rw [hwhole hnone, List.append_nil], hbody⟩

/-- The tokens of a text are read alike wherever they stand. -/
theorem exists_block_of_like {code : String} {f g : Span → Span}
    (hf : ∀ a b, f (a.through b) = f a) (hg : ∀ a b, g (a.through b) = g a)
    {tokens tokens' : List Token} (htokens : tokenize code = .ok tokens)
    (hlike : List.Forall₂ (Token.Like f g) tokens tokens') (hs : s.tokens = tokens)
    (ht : t.tokens = tokens') (hblock : block s = .ok (body, u)) :
    ∃ body' w, block t = .ok (body', w) ∧
      body.map (Stmt.mapSpan f) = body'.map (Stmt.mapSpan g) := by
  obtain ⟨lines, stop, rfl, hlined, hstop⟩ := exists_lined_of_tokenize htokens
  obtain ⟨lines', last, rfl, hlines, hlast⟩ : ∃ lines' last, tokens' = lines' ++ [last] ∧
      List.Forall₂ (Token.Like f g) lines lines' ∧ Token.Like f g stop last := by
    rw [← List.forall₂_reverse_iff, List.reverse_append] at hlike
    obtain ⟨last, lines', hlast, hlines, htokens'⟩ := List.forall₂_cons_left_iff.1 hlike
    rw [List.reverse_eq_iff, List.reverse_cons] at htokens'
    exact ⟨_, last, htokens', by rwa [← List.forall₂_reverse_iff, List.reverse_reverse], hlast⟩
  exact exists_block_of_lined hf hg hlined hstop (hlast.kind ▸ hstop) hlines hs ht hblock

/-! ## Whole texts -/

/-- Tokens at which reading a block is stuck are not read. -/
theorem Parse.Stuck.parseTokens_ne_ok {first : Token} {tokens : List Token}
    (h : Stuck (.ofTokens first tokens)) : parseTokens (first :: tokens) ≠ .ok body := by
  intro hparse
  obtain ⟨u, hblock⟩ := exists_block_of_parseTokens hparse
  exact h _ _ _ _ hblock

/-- Code does not begin with a token that begins no statement. -/
theorem kind_ne_of_parseTokens {tokens : List Token} {kind : TokenKind}
    (h : parseTokens tokens = .ok body) (hend : kind ≠ .endOfFile) (hblock : kind.blockForm? = none)
    (hline : kind.lineForm? = none) (hexpr : kind.opensExpr = false) :
    ∀ t ∈ tokens.head?, t.kind ≠ kind := by
  rintro first hfirst hkind
  obtain ⟨others, rfl⟩ := List.head?_eq_some_iff.1 hfirst
  have hstuck : Stuck (.ofTokens first others) := stuck_of_kind hkind hend hblock hline hexpr
  exact hstuck.parseTokens_ne_ok h

/-- Code does not begin with a deeper indentation. -/
theorem head_ne_indent_of_parseTokens {tokens : List Token} (h : parseTokens tokens = .ok body) :
    ∀ t ∈ tokens.head?, t.kind ≠ .indent :=
  kind_ne_of_parseTokens h (by decide) rfl rfl rfl

/-- Code does not begin with a further clause of a statement. -/
theorem continuesBlock_head_of_parseTokens {tokens : List Token}
    (h : parseTokens tokens = .ok body) : ∀ t ∈ tokens.head?, continuesBlock t.kind = false := by
  intro t ht
  refine Bool.eq_false_iff.2 fun hkind => ?_
  have hform : t.kind ≠ .endOfFile ∧ t.kind.blockForm? = none ∧ t.kind.lineForm? = none ∧
      t.kind.opensExpr = false := by
    generalize t.kind = kind at hkind
    simp only [continuesBlock, Bool.or_eq_true, decide_eq_true_eq] at hkind
    obtain ((rfl | rfl) | rfl) | rfl := hkind <;> exact ⟨by decide, rfl, rfl, rfl⟩
  exact kind_ne_of_parseTokens h hform.1 hform.2.1 hform.2.2.1 hform.2.2.2 t ht rfl

end NoteCheck.Code
