/-
# Tokens in order

Places in a text are compared by line and then by column. The main statement,
`between_of_tokenize`: no token ends before it begins, and each begins where the one before it has
ended, or further on. This holds although the end of a token on one line counts characters and the
beginning of the next one counts bytes.
-/
import NoteCheck.Proofs.Layout.Coverage
import Mathlib.Data.Prod.Lex
import Mathlib.Order.Basic

namespace NoteCheck.Code

/-! ## Positions -/

namespace Position

instance : LinearOrder Position :=
  LinearOrder.lift' (fun p => toLex (p.line, p.column)) (by
    rintro ⟨_, _⟩ ⟨_, _⟩ h
    obtain ⟨rfl, rfl⟩ := Prod.mk.inj (toLex_inj.1 h)
    rfl)

theorem le_iff {p q : Position} :
    p ≤ q ↔ p.line < q.line ∨ p.line = q.line ∧ p.column ≤ q.column :=
  Prod.Lex.le_iff

/-- A text on one line ends before the place after its bytes, or there. -/
theorem stop_ofText_le_advance (p : Position) (text : List Char) :
    (Span.ofText p text).stop ≤ p.advance text := by
  induction text generalizing p with
  | nil => exact le_refl p
  | cons c text ih =>
    refine le_trans ?_ (ih (p.next c))
    have hsize := Char.utf8Size_pos c
    rw [Span.ofText, Span.ofText, le_iff, Position.next, List.length_cons]
    split
    · exact .inl (Nat.lt_succ_self _)
    · exact .inr ⟨rfl, by dsimp only; omega⟩

theorem lt_advance (p : Position) {text : List Char} (h : text ≠ []) : p < p.advance text := by
  refine lt_of_lt_of_le ?_ (stop_ofText_le_advance p text)
  have hlength := List.length_pos_iff.2 h
  refine lt_of_le_of_ne (le_iff.2 (.inr ⟨rfl, Nat.le_add_right _ _⟩)) fun heq => ?_
  have hcolumn : p.column = p.column + text.length := congrArg column heq
  omega

theorem le_advance (p : Position) (text : List Char) : p ≤ p.advance text := by
  refine le_trans ?_ (stop_ofText_le_advance p text)
  exact le_iff.2 (.inr ⟨rfl, Nat.le_add_right _ _⟩)

end Position

/-! ## Parts of a text in order -/

/-- Parts of a text that lie between two places one after the other. They may touch. -/
def Between (a : Position) : List Span → Position → Prop
  | [], b => a ≤ b
  | s :: spans, b => a ≤ s.start ∧ s.start ≤ s.stop ∧ Between s.stop spans b

namespace Between

variable {a b c d : Position} {xs ys : List Span} {s : Span}

theorem mono (h : Between a xs b) (ha : c ≤ a) (hb : b ≤ d) : Between c xs d := by
  induction xs generalizing a c with
  | nil => exact (ha.trans h).trans hb
  | cons s xs ih => exact ⟨ha.trans h.1, h.2.1, ih h.2.2 le_rfl⟩

theorem append (h : Between a xs b) (hbc : b ≤ c) (h' : Between c ys d) :
    Between a (xs ++ ys) d := by
  induction xs generalizing a with
  | nil => exact h'.mono (le_trans h hbc) le_rfl
  | cons s xs ih => exact ⟨h.1, h.2.1, ih h.2.2⟩

theorem le (h : Between a xs b) : a ≤ b := by
  induction xs generalizing a with
  | nil => exact h
  | cons s xs ih => exact h.1.trans (h.2.1.trans (ih h.2.2))

theorem of_mem (h : Between a xs b) : ∀ s ∈ xs, a ≤ s.start ∧ s.start ≤ b := by
  induction xs generalizing a with
  | nil => exact nofun
  | cons s xs ih =>
    obtain ⟨ha, hs, hxs⟩ := h
    refine List.forall_mem_cons.2 ⟨⟨ha, hs.trans hxs.le⟩, fun t ht => ?_⟩
    obtain ⟨hstart, hstop⟩ := ih hxs t ht
    exact ⟨(ha.trans hs).trans hstart, hstop⟩

end Between

/-! ## Reading -/

namespace Reader

theorem between_markers (r : Reader) (kinds : List TokenKind) :
    Between r.here (kinds.map fun kind => (r.marker kind).span) r.here := by
  induction kinds with
  | nil => exact le_rfl
  | cons kind kinds ih => exact ⟨le_rfl, le_rfl, ih⟩

theorem between_of_entersBlock {r next : Reader} {width : Nat} {found : List Token}
    (h : r.EntersBlock width found next) : Between r.here (found.map Token.span) next.here := by
  cases h with
  | opens => exact r.between_markers [.indent]
  | closes =>
    rw [List.map_map]
    simpa [Function.comp_def] using
      r.between_markers ((r.blocks.takeWhile (width < ·)).map fun _ => .dedent)

theorem between_of_enterLine {r next : Reader} {found : List Token}
    (h : r.enterLine = .ok (found, next)) : Between r.here (found.map Token.span) next.here := by
  have hblanks := r.here.le_advance (r.rest.takeWhile isIndent)
  cases enterLine_eq_ok.1 h with
  | within => exact le_rfl
  | blank => exact hblanks
  | block _ _ _ hblock => exact (between_of_entersBlock hblock).mono hblanks le_rfl

theorem between_of_lexeme {r next : Reader} {found : List Token}
    (h : r.lexeme = .ok (found, next)) : Between r.here (found.map Token.span) next.here := by
  obtain ⟨l, rest, -, htake⟩ | ⟨-, rfl, rfl⟩ := lexeme_eq_ok.1 h
  · have hpiece := r.here.le_advance l.text
    cases take_eq_iff.1 htake with
    | @token kind text =>
      rw [List.map_singleton, spanOf]
      split
      · exact ⟨le_rfl, hpiece, le_rfl⟩
      · exact ⟨le_rfl, Position.le_iff.2 (.inr ⟨rfl, Nat.le_add_right _ _⟩),
          r.here.stop_ofText_le_advance text⟩
    | lineEnd => exact ⟨le_rfl, le_rfl, hpiece⟩
    | lineBreak | gap => exact hpiece
  · exact le_rfl

theorem between_of_step {r next : Reader} {found : List Token}
    (h : r.step = .ok (found, next)) : Between r.here (found.map Token.span) next.here := by
  obtain ⟨layout, entered, taken, hline, hlexeme, rfl⟩ := step_eq_ok_iff.1 h
  rw [List.map_append]
  exact (between_of_enterLine hline).append le_rfl (between_of_lexeme hlexeme)

/-- What is found on the way lies between the places of the readers. -/
theorem Reads.between {r last : Reader} {found : List Token} (h : r.Reads found last) :
    Between r.here (found.map Token.span) last.here := by
  induction h with
  | refl => exact le_rfl
  | step _ hstep _ ih =>
    rw [List.map_append]
    exact (between_of_step hstep).append le_rfl ih

theorem between_finish (r : Reader) : Between r.here (r.finish.map Token.span) r.here := by
  have hmarkers := r.between_markers
    ((if r.betweenLines then [] else [.newline]) ++ r.blocks.map (fun _ => .dedent) ++ [.endOfFile])
  rw [finish]
  split at hmarkers
  · simpa [*, Function.comp_def] using hmarkers
  · simpa [*, Function.comp_def] using hmarkers

/-- What is still to be found lies after the place of the reader. -/
theorem between_of_tokens {r : Reader} {tokens : List Token} (h : r.tokens = .ok tokens) :
    ∃ stop, Between r.here (tokens.map Token.span) stop := by
  obtain ⟨found, last, hreads, ⟨-, hok⟩ | ⟨e, -, hfail⟩⟩ := r.exists_reads
  · obtain rfl := Except.ok.inj (hok.symm.trans h)
    rw [List.map_append]
    exact ⟨last.here, hreads.between.append le_rfl last.between_finish⟩
  · cases hfail.symm.trans h

end Reader

/-- The tokens of a text lie one after the other. -/
theorem between_of_tokenize {code : String} {tokens : List Token} (h : tokenize code = .ok tokens) :
    ∃ stop, Between .start (tokens.map Token.span) stop :=
  Reader.between_of_tokens h

end NoteCheck.Code
