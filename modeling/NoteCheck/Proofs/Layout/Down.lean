/-
# The same text in another place

A text has the same tokens wherever it begins, but for their places. Whatever relation of places is
kept along every text holds between the places of its tokens, too. The main statements are
`Reader.exists_tokens_moved` and, for a text that begins on a later line, `Reader.tokens_down`.
-/
import NoteCheck.Proofs.Layout.Elsewhere

namespace NoteCheck.Code

/-! ## Relations of places -/

/-- A relation of places that is kept along every text, whether bytes are counted or characters. -/
structure Position.Kept (P : Position → Position → Prop) : Prop where
  next : ∀ {p q}, P p q → ∀ c, P (p.next c) (q.next c)
  along : ∀ {p q}, P p q → ∀ n, P ⟨p.line, p.column + n⟩ ⟨q.line, q.column + n⟩

theorem Position.Kept.advance {P : Position → Position → Prop} (hP : Kept P) {p q : Position}
    (h : P p q) (text : List Char) : P (p.advance text) (q.advance text) := by
  induction text generalizing p q with
  | nil => exact h
  | cons c text ih =>
    rw [advance_cons, advance_cons]
    exact ih (hP.next h c)

/-- The same token in another place. -/
structure Token.Moved (P : Position → Position → Prop) (t t' : Token) : Prop where
  kind : t'.kind = t.kind
  text : t'.text = t.text
  start : P t.span.start t'.span.start
  stop : P t.span.stop t'.span.stop

/-- A place so many lines further down. -/
def Position.down (n : Nat) (p : Position) : Position := ⟨p.line + n, p.column⟩

/-- A part of a text so many lines further down. -/
def Span.down (n : Nat) (s : Span) : Span := ⟨s.start.down n, s.stop.down n⟩

/-- A token so many lines further down. -/
def Token.down (n : Nat) (t : Token) : Token := { t with span := t.span.down n }

@[simp] theorem Span.line_down (n : Nat) (s : Span) : (s.down n).line = s.line + n := rfl

@[simp] theorem Token.kind_down (n : Nat) (t : Token) : (t.down n).kind = t.kind := rfl

@[simp] theorem Token.shape_down (n : Nat) (t : Token) : (t.down n).shape = t.shape := rfl

/-- The first token further down is of the same kind. -/
theorem forall_head?_down {p : TokenKind → Prop} {tokens : List Token}
    (h : ∀ t ∈ tokens.head?, p t.kind) (n : Nat) :
    ∀ t ∈ (tokens.map (Token.down n)).head?, p t.kind := by
  rw [List.head?_map]
  intro t ht
  obtain ⟨first, hfirst, rfl⟩ := Option.map_eq_some_iff.1 ht
  exact h first hfirst

theorem Position.kept_down (n : Nat) : Kept fun p q => q = p.down n where
  next := by
    rintro p _ rfl c
    unfold Position.next
    split
    · exact congrArg (Position.mk · 1) (Nat.add_right_comm ..)
    · rfl
  along := by
    rintro p _ rfl _
    rfl

/-- A line so many lines further down, in whatever column. -/
theorem Position.kept_line (n : Nat) : Kept fun p q => q.line = p.line + n where
  next := by
    intro p q h c
    unfold Position.next
    split
    · show q.line + 1 = p.line + 1 + n
      omega
    · exact h
  along := fun h _ => h

theorem Token.eq_down_of_moved {n : Nat} {t t' : Token}
    (h : Moved (fun p q => q = p.down n) t t') : t.down n = t' := by
  obtain ⟨kind, text, start, stop⟩ := t'
  obtain ⟨hkind, htext, hstart, hstop⟩ := h
  dsimp only at hkind htext hstart hstop
  rw [hkind, htext, hstart, hstop]
  rfl

/-! ## Readers -/

namespace Reader

/-- The same reader in another place. -/
def moved (r : Reader) (here : Position) : Reader := { r with here }

/-- A reader so many lines further down. -/
def down (n : Nat) (r : Reader) : Reader := r.moved (r.here.down n)

variable {P : Position → Position → Prop} (hP : Position.Kept P)
variable {r entered next : Reader} {here : Position} {found layout taken : List Token}

include hP

theorem moved_marker (h : P r.here here) (kind : TokenKind) :
    Token.Moved P (r.marker kind) ((r.moved here).marker kind) :=
  ⟨rfl, rfl, h, hP.along h 0⟩

theorem moved_markers (h : P r.here here) (kind : TokenKind) (blocks : List Nat) :
    List.Forall₂ (Token.Moved P) (blocks.map fun _ => r.marker kind)
      (blocks.map fun _ => (r.moved here).marker kind) := by
  rw [List.forall₂_map_left_iff, List.forall₂_map_right_iff, List.forall₂_same]
  exact fun _ _ => moved_marker hP h kind

theorem enterBlock_moved {width : Nat} (hhere : P r.here here)
    (h : r.EntersBlock width found entered) : P entered.here here ∧
      ∃ found', (r.moved here).EntersBlock width found' (entered.moved here) ∧
        List.Forall₂ (Token.Moved P) found found' := by
  cases h with
  | opens hwidth => exact ⟨hhere, _, .opens hwidth, .cons (moved_marker hP hhere .indent) .nil⟩
  | closes hwidth hblocks =>
    exact ⟨hhere, _, .closes hwidth hblocks, moved_markers hP hhere .dedent _⟩

theorem enterLine_moved (hhere : P r.here here) (h : r.enterLine = .ok (layout, entered)) :
    ∃ here', P entered.here here' ∧
      ∃ layout', (r.moved here).enterLine = .ok (layout', entered.moved here') ∧
        List.Forall₂ (Token.Moved P) layout layout' := by
  have hpast : P r.pastIndent.here (r.moved here).pastIndent.here := hP.advance hhere _
  simp only [enterLine_eq_ok] at h ⊢
  cases h with
  | within hwithin => exact ⟨here, hhere, [], .within hwithin, .nil⟩
  | blank hstart hdepth hblank => exact ⟨_, hpast, [], .blank hstart hdepth hblank, .nil⟩
  | block hstart hdepth hblank hblock =>
    obtain ⟨hentered, layout', hblock', hlayout⟩ := enterBlock_moved hP hpast hblock
    exact ⟨_, hentered, layout', .block hstart hdepth hblank hblock', hlayout⟩

theorem take_moved (hhere : P r.here here) (l : Lexeme) (rest : List Char) :
    ((r.moved here).take l rest).2 = (r.take l rest).2.moved (here.advance l.text) ∧
      P (r.take l rest).2.here (here.advance l.text) ∧
        List.Forall₂ (Token.Moved P) (r.take l rest).1 ((r.moved here).take l rest).1 := by
  have hpast := hP.advance hhere l.text
  cases l with
  | gap => exact ⟨rfl, hpast, .nil⟩
  | token kind text =>
    refine ⟨rfl, hpast, .cons ⟨rfl, rfl, ?_, ?_⟩ .nil⟩
    · show P (r.spanOf kind text).start ((r.moved here).spanOf kind text).start
      unfold spanOf
      split <;> exact hhere
    · show P (r.spanOf kind text).stop ((r.moved here).spanOf kind text).stop
      unfold spanOf
      split
      · exact hpast
      · exact hP.along hhere text.length
  | lineBreak text =>
    obtain ⟨_, _, depth, _, _, between⟩ := r
    cases depth with
    | succ => exact ⟨rfl, hpast, .nil⟩
    | zero =>
      cases between with
      | true => exact ⟨rfl, hpast, .nil⟩
      | false => exact ⟨rfl, hpast, .cons ⟨rfl, rfl, hhere, hP.along hhere 0⟩ .nil⟩

theorem lexeme_moved (hhere : P r.here here) (h : r.lexeme = .ok (taken, next)) :
    ∃ here', P next.here here' ∧
      ∃ taken', (r.moved here).lexeme = .ok (taken', next.moved here') ∧
        List.Forall₂ (Token.Moved P) taken taken' := by
  obtain ⟨l, rest, hread, htake⟩ | ⟨hnil, rfl, rfl⟩ := lexeme_eq_ok.1 h
  · obtain ⟨hnext, hplace, htokens⟩ := take_moved hP hhere l rest
    rw [htake] at hnext hplace htokens
    refine ⟨_, hplace, _, ?_, htokens⟩
    rw [lexeme_of_next? (r := r.moved here) hread, ← hnext]
  · exact ⟨here, hhere, [], lexeme_eq_ok.2 (.inr ⟨hnil, rfl, rfl⟩), .nil⟩

theorem step_moved (hhere : P r.here here) (h : r.step = .ok (found, next)) :
    ∃ here', P next.here here' ∧ ∃ found', (r.moved here).step = .ok (found', next.moved here') ∧
      List.Forall₂ (Token.Moved P) found found' := by
  obtain ⟨layout, entered, taken, hline, hlexeme, rfl⟩ := step_eq_ok_iff.1 h
  obtain ⟨inner, hinner, layout', hline', hlayout⟩ := enterLine_moved hP hhere hline
  obtain ⟨here', hnext, taken', hlexeme', htaken⟩ := lexeme_moved hP hinner hlexeme
  exact ⟨here', hnext, _, step_eq_ok hline' hlexeme', List.rel_append hlayout htaken⟩

theorem finish_moved (hhere : P r.here here) :
    List.Forall₂ (Token.Moved P) r.finish (r.moved here).finish := by
  have hdedents := moved_markers hP hhere .dedent r.blocks
  have hend := List.Forall₂.cons (moved_marker hP hhere .endOfFile) .nil
  unfold finish
  refine List.rel_append (List.rel_append ?_ hdedents) hend
  show List.Forall₂ _ (if r.betweenLines then _ else _) (if r.betweenLines then _ else _)
  split
  · exact .nil
  · exact .cons (moved_marker hP hhere .newline) .nil

/-- The tokens of a text in another place are its tokens, moved. -/
theorem exists_tokens_moved {tokens : List Token} (h : r.tokens = .ok tokens)
    (hhere : P r.here here) : ∃ tokens', (r.moved here).tokens = .ok tokens' ∧
      List.Forall₂ (Token.Moved P) tokens tokens' := by
  induction r using Reader.tokens.induct generalizing tokens here with
  | case1 r hnil =>
    rw [tokens_of_rest_eq_nil hnil] at h
    obtain rfl := Except.ok.inj h
    exact ⟨_, tokens_of_rest_eq_nil (r := r.moved here) hnil, finish_moved hP hhere⟩
  | case2 r hne e hstep => cases (tokens_of_step_eq_error hne hstep).symm.trans h
  | case3 r hne found next hstep ih =>
    rw [tokens_eq_of_step hne hstep] at h
    obtain ⟨others, hothers, rfl⟩ := Results.map_eq_ok.1 h
    obtain ⟨here', hnext, found', hstep', hfound⟩ := step_moved hP hhere hstep
    obtain ⟨others', hothers', hmore⟩ := ih hothers hnext
    refine ⟨found' ++ others', ?_, List.rel_append hfound hmore⟩
    rw [tokens_eq_of_step (r := r.moved here) hne hstep', hothers']
    rfl

omit hP

/-- The tokens of a text further down are its tokens, so many lines further down. -/
theorem tokens_down {n : Nat} {tokens : List Token} (h : r.tokens = .ok tokens) :
    (r.down n).tokens = .ok (tokens.map (Token.down n)) := by
  have hhere : r.here.down n = r.here.down n := rfl
  obtain ⟨tokens', htokens, hmoved⟩ := exists_tokens_moved (Position.kept_down n) h hhere
  have hdown : List.Forall₂ (Token.down n · = ·) tokens tokens' :=
    hmoved.imp fun _ _ => Token.eq_down_of_moved
  rw [← List.forall₂_map_left_iff, List.forall₂_eq_eq_eq] at hdown
  rw [hdown]
  exact htokens

end Reader

end NoteCheck.Code
