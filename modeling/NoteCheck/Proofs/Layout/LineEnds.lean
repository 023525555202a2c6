/-
# Where lines end

Before a mark that ends a block stands the end of a line or of another block, and so does it before
the end of the text. The main statement, `exists_lined_of_tokenize`, holds of the tokens of every
text; it says where a further text may go on.
-/
import NoteCheck.Proofs.Layout.Structure

namespace NoteCheck.Code

/-- A token after which its line goes on: not the end of a line or of a block. -/
def TokenKind.goesOn : TokenKind → Bool
  | .newline | .dedent => false
  | _ => true

theorem TokenKind.goesOn_of_isLayout {kind : TokenKind} (h : kind.isLayout = false) :
    kind.goesOn = true := by
  cases kind <;> first | rfl | cases h

theorem TokenKind.goesOn_of_ne {kind : TokenKind} (hline : kind ≠ .newline)
    (hblock : kind ≠ .dedent) :
    kind.goesOn = true := by
  cases kind <;> first | rfl | contradiction

theorem kindsOf_markers (r : Reader) (blocks : List Nat) (kind : TokenKind) :
    kindsOf (blocks.map fun _ => r.marker kind) = List.replicate blocks.length kind := by
  rw [kindsOf, List.map_map, ← List.map_const']
  rfl

/-- Blocks end only after the end of a line or of another block. -/
def BlocksEnd (kinds : List TokenKind) : Prop :=
  kinds.IsChain fun a b => b = .dedent → a.goesOn = false

namespace BlocksEnd

variable {kinds more : List TokenKind} {r next : Reader} {found : List Token}

theorem append_of_ne (h : BlocksEnd kinds) (hmore : ∀ kind ∈ more, kind ≠ .dedent) :
    BlocksEnd (kinds ++ more) := by
  refine List.IsChain.append h ?_ fun _ _ kind hkind hdedent =>
    absurd hdedent (hmore kind (List.mem_of_mem_head? hkind))
  induction more with
  | nil => exact .nil
  | cons a more ih =>
    have hothers : ∀ kind ∈ more, kind ≠ .dedent := fun kind hkind =>
      hmore kind (List.mem_cons_of_mem a hkind)
    refine List.IsChain.cons (ih hothers) fun kind hkind hdedent => ?_
    exact absurd hdedent (hothers kind (List.mem_of_mem_head? hkind))

theorem append_dedents (h : BlocksEnd kinds) {n : Nat}
    (hlast : ∀ last ∈ kinds.getLast?, last.goesOn = false) :
    BlocksEnd (kinds ++ List.replicate n .dedent) :=
  List.IsChain.append h (List.isChain_replicate_of_rel n fun _ => rfl) fun last hmem _ _ _ =>
    hlast last hmem

/-- Blocks end where the last line has ended. -/
theorem enterLine (h : BlocksEnd kinds) (hr : r.Keeps kinds)
    (hline : r.enterLine = .ok (found, next)) :
    BlocksEnd (kinds ++ kindsOf found) := by
  cases Reader.enterLine_eq_ok.1 hline with
  | within | blank => rwa [kindsOf_nil, List.append_nil]
  | block hstart _ _ hblock =>
    cases hblock with
    | opens =>
      refine h.append_of_ne fun kind hkind => ?_
      rw [List.mem_singleton.1 hkind]
      exact TokenKind.noConfusion
    | closes =>
      rw [kindsOf_markers]
      refine h.append_dedents fun last hmem => ?_
      rw [hr.last_eq_newline (hr.lineStart hstart).1 last hmem]
      rfl

theorem lexeme (h : BlocksEnd kinds) (hlexeme : r.lexeme = .ok (found, next)) :
    BlocksEnd (kinds ++ kindsOf found) := by
  refine h.append_of_ne fun kind hkind => ?_
  obtain ⟨l, rest, hnext, htake⟩ | ⟨-, rfl, -⟩ := Reader.lexeme_eq_ok.1 hlexeme
  · cases Reader.take_eq_iff.1 htake with
    | token =>
      obtain rfl := List.mem_singleton.1 hkind
      have hlayout := Lexeme.isLayout_of_next? hnext
      rintro rfl
      cases hlayout
    | lineEnd =>
      rw [List.mem_singleton.1 hkind]
      exact TokenKind.noConfusion
    | lineBreak | gap => cases hkind
  · cases hkind

theorem step (h : BlocksEnd kinds) (hr : r.Keeps kinds) (hstep : r.step = .ok (found, next)) :
    BlocksEnd (kinds ++ kindsOf found) := by
  obtain ⟨layout, entered, taken, hline, hlexeme, rfl⟩ := Reader.step_eq_ok_iff.1 hstep
  rw [kindsOf_append, ← List.append_assoc]
  exact (h.enterLine hr hline).lexeme hlexeme

/-- Reading on by some steps ends blocks where lines have ended. -/
theorem of_reads {last : Reader} (hreads : r.Reads found last) : ∀ {kinds}, BlocksEnd kinds →
    r.Keeps kinds → BlocksEnd (kinds ++ kindsOf found) := by
  induction hreads with
  | refl =>
    intro kinds h _
    rwa [kindsOf_nil, List.append_nil]
  | step _ hstep _ ih =>
    intro kinds h hr
    rw [kindsOf_append, ← List.append_assoc]
    exact ih (h.step hr hstep) (hr.step hstep)

end BlocksEnd

/-- Tokens before the end of a text: their last line has ended, and with it all blocks. -/
structure Lined (tokens : List Token) : Prop where
  blocks : BlocksEnd (kindsOf tokens)
  last : ∀ last ∈ (kindsOf tokens).getLast?, last.goesOn = false
  inside : ∀ t ∈ tokens, t.kind ≠ .endOfFile

/-- After the last line only blocks end. -/
theorem getLast?_append_dedents_goesOn {kinds : List TokenKind} (n : Nat)
    (h : ∀ last ∈ kinds.getLast?, last.goesOn = false) :
    ∀ last ∈ (kinds ++ List.replicate n TokenKind.dedent).getLast?, last.goesOn = false := by
  cases n with
  | zero => simpa using h
  | succ n =>
    rw [List.replicate_succ', ← List.append_assoc, List.getLast?_concat]
    rintro last hlast
    rw [← Option.some.inj hlast]
    rfl

/-- The tokens of every text end with the end of their last line and of its blocks. -/
theorem exists_lined_of_tokenize {code : String} {tokens : List Token}
    (h : tokenize code = .ok tokens) :
    ∃ lines stop, tokens = lines ++ [stop] ∧ Lined lines ∧ stop.kind = .endOfFile := by
  obtain ⟨lines, stop, rfl, hstop, hinside⟩ := endsOnce_of_tokenize h
  obtain ⟨found, last, hreads, ⟨-, hok⟩ | ⟨e, -, hfail⟩⟩ := (Reader.ofText code).exists_reads
  · have hkeeps := hreads.keeps (Reader.keeps_ofText code)
    have hends := BlocksEnd.of_reads hreads .nil (Reader.keeps_ofText code)
    rw [List.nil_append] at hkeeps hends
    -- the marks that finish a text: the end of an open line, then the ends of the blocks
    have hkinds : kindsOf lines = kindsOf found ++ (if last.betweenLines then [] else [.newline]) ++
        List.replicate last.blocks.length .dedent := by
      have hsame := congrArg kindsOf (Except.ok.inj (h.symm.trans hok))
      rw [kindsOf_append, kindsOf_append, Reader.kindsOf_finish, ← List.append_assoc,
        ← List.append_assoc] at hsame
      exact (List.append_inj' hsame rfl).1
    have hline : BlocksEnd (kindsOf found ++ if last.betweenLines then [] else [.newline]) ∧
        ∀ kind ∈ (kindsOf found ++ if last.betweenLines then [] else [TokenKind.newline]).getLast?,
          kind.goesOn = false := by
      cases hbetween : last.betweenLines with
      | true =>
        rw [if_pos rfl, List.append_nil]
        refine ⟨hends, fun kind hkind => ?_⟩
        rw [hkeeps.last_eq_newline hbetween kind hkind]
        rfl
      | false =>
        rw [if_neg Bool.false_ne_true, List.getLast?_concat]
        refine ⟨hends.append_of_ne fun kind hkind => ?_, fun kind hkind => ?_⟩
        · rw [List.mem_singleton.1 hkind]
          exact TokenKind.noConfusion
        · rw [← Option.some.inj hkind]
          rfl
    refine ⟨lines, stop, rfl, ⟨?_, ?_, hinside⟩, hstop⟩
    · rw [hkinds]
      exact hline.1.append_dedents hline.2
    · rw [hkinds]
      exact getLast?_append_dedents_goesOn _ hline.2
  · rw [tokenize, hfail] at h
    cases h

end NoteCheck.Code
