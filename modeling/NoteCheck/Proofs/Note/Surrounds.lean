/-
# Lines within the block

The block of a note is the first pair of fences after its heading, and what stands between the two
is code, even if it looks like a section. The main statements: lines that the block goes around are
part of it (`Surrounds.exists_blockLines?_eq`), and otherwise lines that are neither fences nor
headings may stand in any order without the block changing (`blockLines?_eq_of_perm`).
-/
import NoteCheck.Proofs.Note.Isolation

namespace NoteCheck.Note

open Text

variable {level : Option Nat} {heading opening : List Char}
  {before inside middle middle' after : List (List Char)}

/-! ## The block in lines -/

/-- The lines between the first fence before the end of a section and the one that closes it. -/
def fencedIn (level : Option Nat) (lines : List (List Char)) : Option (List (List Char)) :=
  Block.fenced? (untilHeading level none lines)

/-- The lines of the block of a note. -/
def blockLines? (heading : List Char) (lines : List (List Char)) : Option (List (List Char)) :=
  (afterMarker? (trim heading) lines).bind (fencedIn (headingLevel heading))

theorem extractBlock_eq (text heading : String) :
    extractBlock text heading =
      ((blockLines? heading.toList (Text.lines text.toList)).map Block.ofLines).getD .empty := by
  have hlines : (sectionLines? text.toList heading.toList).bind Block.fenced? =
      blockLines? heading.toList (Text.lines text.toList) := by
    rw [sectionLines?, headingLevel_trim, blockLines?, Option.bind_map]
    rfl
  rw [extractBlock, hlines]
  cases blockLines? heading.toList (Text.lines text.toList) <;> rfl

/-- An open fence is closed by the same line, wherever the section ends. -/
theorem beforeFence?_untilHeading (lines : List (List Char)) :
    Block.beforeFence? opening (untilHeading level (some opening) lines) =
      Block.beforeFence? opening lines := by
  induction lines with
  | nil => rfl
  | cons line lines ih =>
    rw [untilHeading, Block.beforeFence?, Block.beforeFence?]
    by_cases hcloses : (fence? line).any (closes opening) = true
    · rw [if_pos hcloses, if_pos hcloses]
    · rw [if_neg hcloses, if_neg hcloses, if_neg hcloses, ih]

theorem fencedIn_cons_of_fence {opener : List Char} (h : fence? opener = some opening)
    (rest : List (List Char)) :
    fencedIn level (opener :: rest) = Block.beforeFence? opening rest := by
  rw [fencedIn, untilHeading, h]
  dsimp only
  rw [Block.fenced?, h]
  exact beforeFence?_untilHeading rest

/-- Lines that are no fences and do not end the section stand before the block. -/
theorem fencedIn_append {prose : List (List Char)}
    (h : ∀ line ∈ prose, fence? line = none ∧ ¬Ends level line) (rest : List (List Char)) :
    fencedIn level (prose ++ rest) = fencedIn level rest := by
  rw [fencedIn, untilHeading_append h, fenced?_append_of_forall fun line hline => (h line hline).1]
  rfl

theorem fencedIn_cons_of_ends {line : List Char} (h : Ends level line) (rest : List (List Char)) :
    fencedIn level (line :: rest) = none := by
  rw [fencedIn, untilHeading_of_ends]
  · rfl
  · rintro _ ⟨⟩
    exact h

/-- Either no line closes a fence, or there is a first one that does. -/
theorem staysOpen_or_exists (opening : List Char) (lines : List (List Char)) :
    StaysOpen opening lines ∨ ∃ inside closer rest, lines = inside ++ closer :: rest ∧
      StaysOpen opening inside ∧ (fence? closer).any (closes opening) = true := by
  cases hfind : lines.find? fun line => (fence? line).any (closes opening) with
  | none =>
    refine .inl (staysOpen_iff.2 fun line hline => ?_)
    exact Bool.eq_false_iff.2 (List.find?_eq_none.1 hfind line hline)
  | some closer =>
    obtain ⟨hcloser, inside, rest, rfl, hinside⟩ := List.find?_eq_some_iff_append.1 hfind
    refine .inr ⟨inside, closer, rest, rfl, staysOpen_iff.2 fun line hline => ?_, hcloser⟩
    simpa using hinside line hline

theorem staysOpen_of_forall {lines : List (List Char)} (h : ∀ line ∈ lines, fence? line = none) :
    StaysOpen opening lines :=
  staysOpen_iff.2 fun line hline => by rw [h line hline, Option.any_none]

theorem beforeFence?_eq_none (h : StaysOpen opening after) :
    Block.beforeFence? opening after = none := by
  have happend := beforeFence?_append_of_staysOpen h []
  rwa [List.append_nil] at happend

/-! ## How the scan stands after some lines -/

/-- The lines of a section leave its block open: they open its fence, and do not close it. -/
structure LeavesOpen (level : Option Nat) (lines : List (List Char)) (opening : List Char)
    (inside : List (List Char)) : Prop where
  opened : ∃ prose opener, lines = prose ++ opener :: inside ∧
    (∀ line ∈ prose, fence? line = none ∧ ¬Ends level line) ∧ fence? opener = some opening
  staysOpen : StaysOpen opening inside

theorem LeavesOpen.cons {line : List Char} {lines : List (List Char)}
    (hfence : fence? line = none) (hends : ¬Ends level line)
    (h : LeavesOpen level lines opening inside) :
    LeavesOpen level (line :: lines) opening inside := by
  obtain ⟨⟨prose, opener, rfl, hprose, hopener⟩, hopen⟩ := h
  exact ⟨⟨line :: prose, opener, rfl, List.forall_mem_cons.2 ⟨⟨hfence, hends⟩, hprose⟩, hopener⟩,
    hopen⟩

theorem LeavesOpen.fencedIn_append {lines : List (List Char)}
    (h : LeavesOpen level lines opening inside) (rest : List (List Char)) :
    fencedIn level (lines ++ rest) = (Block.beforeFence? opening rest).map (inside ++ ·) := by
  obtain ⟨⟨prose, opener, rfl, hprose, hopener⟩, hopen⟩ := h
  rw [List.append_assoc, Note.fencedIn_append hprose, List.cons_append,
    fencedIn_cons_of_fence hopener, beforeFence?_append_of_staysOpen hopen]

/-- After some lines of a section, the block is still to come, or what it is has been decided, or it
is open. -/
theorem fencedIn_append_cases (level : Option Nat) (lines : List (List Char)) :
    (∀ rest, fencedIn level (lines ++ rest) = fencedIn level rest) ∨
      (∃ result, ∀ rest, fencedIn level (lines ++ rest) = result) ∨
      ∃ opening inside, LeavesOpen level lines opening inside := by
  induction lines with
  | nil => exact .inl fun _ => rfl
  | cons line lines ih =>
    -- A fence opens the block, a heading may end the section, and any other line is passed over.
    cases hfence : fence? line with
    | some opening =>
      refine .inr ?_
      obtain hopen | ⟨inside, closer, rest, rfl, hinside, hcloser⟩ :=
        staysOpen_or_exists opening lines
      · exact .inr ⟨opening, lines, ⟨[], line, rfl, nofun, hfence⟩, hopen⟩
      · refine .inl ⟨some inside, fun more => ?_⟩
        rw [List.cons_append, fencedIn_cons_of_fence hfence, List.append_assoc, List.cons_append,
          beforeFence?_append hinside hcloser]
    | none =>
      by_cases hends : Ends level line
      · exact .inr (.inl ⟨none, fun rest => fencedIn_cons_of_ends hends _⟩)
      · have hline : ∀ rest, fencedIn level (line :: rest) = fencedIn level rest :=
          Note.fencedIn_append (List.forall_mem_singleton.2 ⟨hfence, hends⟩)
        obtain hnone | ⟨result, hresult⟩ | ⟨opening, inside, hopen⟩ := ih
        · exact .inl fun rest => (hline _).trans (hnone rest)
        · exact .inr (.inl ⟨result, fun rest => (hline _).trans (hresult rest)⟩)
        · exact .inr (.inr ⟨opening, inside, hopen.cons hfence hends⟩)

/-- The lines of a note leave its block open: they hold its heading, and after it they leave the
block of the section open. -/
inductive Opens (heading opening : List Char) (inside : List (List Char)) :
    List (List Char) → Prop
  | mk {first line lines} : (∀ l ∈ first, ¬trim heading <+: trim l) → trim heading <+: trim line →
      LeavesOpen (headingLevel heading) lines opening inside →
      Opens heading opening inside (first ++ line :: lines)

theorem blockLines?_append {line : List Char} {first : List (List Char)}
    (hfirst : ∀ l ∈ first, ¬trim heading <+: trim l) (hline : trim heading <+: trim line)
    (rest : List (List Char)) :
    blockLines? heading (first ++ line :: rest) = fencedIn (headingLevel heading) rest := by
  rw [blockLines?, afterMarker?_append hfirst hline, Option.bind_some]

theorem blockLines?_append_of_forall {first : List (List Char)}
    (hfirst : ∀ l ∈ first, ¬trim heading <+: trim l) (rest : List (List Char)) :
    blockLines? heading (first ++ rest) = blockLines? heading rest := by
  rw [blockLines?, afterMarker?_append_of_forall hfirst]
  rfl

theorem Opens.blockLines?_append (h : Opens heading opening inside before)
    (rest : List (List Char)) :
    blockLines? heading (before ++ rest) = (Block.beforeFence? opening rest).map (inside ++ ·) := by
  obtain ⟨hfirst, hline, hopen⟩ := h
  rw [List.append_assoc, List.cons_append, Note.blockLines?_append hfirst hline,
    hopen.fencedIn_append]

/-- Either no line of a note introduces the section of a heading, or there is a first one that
does. -/
theorem forall_or_exists_introduction (heading : List Char) (lines : List (List Char)) :
    (∀ line ∈ lines, ¬trim heading <+: trim line) ∨ ∃ first line rest,
      lines = first ++ line :: rest ∧ (∀ l ∈ first, ¬trim heading <+: trim l) ∧
        trim heading <+: trim line := by
  cases hfind : lines.find? fun line => (trim heading).isPrefixOf (trim line) with
  | none =>
    refine .inl fun line hline => ?_
    simpa using List.find?_eq_none.1 hfind line hline
  | some line =>
    obtain ⟨hline, first, rest, rfl, hfirst⟩ := List.find?_eq_some_iff_append.1 hfind
    refine .inr ⟨first, line, rest, rfl, fun l hl => ?_, List.isPrefixOf_iff_prefix.1 hline⟩
    rw [← List.isPrefixOf_iff_prefix, Bool.not_eq_true]
    simpa using hfirst l hl

/-- After some lines of a note, the section of the block is still to come, or the block is, or what
it is has been decided, or it is open. -/
theorem blockLines?_append_cases (heading : List Char) (lines : List (List Char)) :
    (∀ rest, blockLines? heading (lines ++ rest) = blockLines? heading rest) ∨
      (∀ rest, blockLines? heading (lines ++ rest) = fencedIn (headingLevel heading) rest) ∨
      (∃ result, ∀ rest, blockLines? heading (lines ++ rest) = result) ∨
      ∃ opening inside, Opens heading opening inside lines := by
  obtain hnone | ⟨first, line, rest, rfl, hfirst, hline⟩ :=
    forall_or_exists_introduction heading lines
  · exact .inl (blockLines?_append_of_forall hnone)
  · have hscan : ∀ more, blockLines? heading (first ++ line :: rest ++ more) =
        fencedIn (headingLevel heading) (rest ++ more) := fun more => by
      rw [List.append_assoc, List.cons_append, blockLines?_append hfirst hline]
    refine .inr ?_
    obtain hcoming | ⟨result, hresult⟩ | ⟨opening, inside, hopen⟩ :=
      fencedIn_append_cases (headingLevel heading) rest
    · exact .inl fun more => (hscan more).trans (hcoming more)
    · exact .inr (.inl ⟨result, fun more => (hscan more).trans (hresult more)⟩)
    · exact .inr (.inr ⟨opening, inside, hfirst, hline, hopen⟩)

/-! ## Lines around which the block goes -/

/-- The block of a heading goes around what stands between two parts of a note: the first part opens
its fence, and the second one closes it. -/
def Surrounds (heading : List Char) (before after : List (List Char)) : Prop :=
  ∃ opening inside, Opens heading opening inside before ∧
    ∃ line ∈ after, (fence? line).any (closes opening) = true

/-- Where no fence is opened there is no block to go around the rest. -/
theorem not_surrounds_of_forall (h : ∀ line ∈ before, fence? line = none) :
    ¬Surrounds heading before after := by
  rintro ⟨opening, inside, ⟨-, -, ⟨prose, opener, rfl, -, hopener⟩, -⟩, -⟩
  have hnone := h opener (by simp)
  exact nomatch hnone.symm.trans hopener

/-- Lines around which the block goes are part of it, as they are. -/
theorem Surrounds.exists_blockLines?_eq (h : Surrounds heading before after) :
    ∃ inside inside', ∀ lines, (∀ line ∈ lines, fence? line = none) →
      blockLines? heading (before ++ (lines ++ after)) = some (inside ++ (lines ++ inside')) := by
  obtain ⟨opening, inside, hopens, closer, hcloser, hcloses⟩ := h
  obtain hopen | ⟨inside', first, rest, rfl, hinside', hfirst⟩ := staysOpen_or_exists opening after
  · exact absurd hcloses (Bool.eq_false_iff.1 (staysOpen_iff.1 hopen closer hcloser))
  · refine ⟨inside, inside', fun lines hlines => ?_⟩
    rw [hopens.blockLines?_append, beforeFence?_append_of_staysOpen (staysOpen_of_forall hlines),
      beforeFence?_append hinside' hfirst]
    rfl

/-- Lines that are neither fences nor headings stand before the block, and the section of the block
may begin among them. -/
theorem blockLines?_append_of_plain (hplain : ∀ line ∈ middle,
      fence? line = none ∧ headingLevel line = none) (rest : List (List Char)) :
    blockLines? heading (middle ++ rest) =
      if ∃ line ∈ middle, trim heading <+: trim line then fencedIn (headingLevel heading) rest
      else blockLines? heading rest := by
  obtain hnone | ⟨first, line, more, rfl, hfirst, hline⟩ :=
    forall_or_exists_introduction heading middle
  · rw [blockLines?_append_of_forall hnone, if_neg]
    rintro ⟨line, hmem, hline⟩
    exact hnone line hmem hline
  · have hmore : ∀ l ∈ more, fence? l = none ∧ ¬Ends (headingLevel heading) l := fun l hl =>
      (hplain l (by simp [hl])).imp_right not_ends_of_headingLevel_eq_none
    rw [if_pos ⟨line, by simp, hline⟩, List.append_assoc, List.cons_append,
      blockLines?_append hfirst hline, fencedIn_append hmore]

/-- Unless the block goes around them, lines that are neither fences nor headings make no difference
to it by their order. -/
theorem blockLines?_eq_of_perm (hplain : ∀ line ∈ middle,
      fence? line = none ∧ headingLevel line = none) (hperm : middle.Perm middle')
    (h : ¬Surrounds heading before after) :
    blockLines? heading (before ++ (middle ++ after)) =
      blockLines? heading (before ++ (middle' ++ after)) := by
  have hplain' : ∀ line ∈ middle', fence? line = none ∧ headingLevel line = none :=
    fun line hline => hplain line (hperm.mem_iff.2 hline)
  obtain hcoming | hcoming | ⟨result, hresult⟩ | ⟨opening, inside, hopens⟩ :=
    blockLines?_append_cases heading before
  -- Where the section is still to come, it may begin with any of the lines.
  · rw [hcoming, hcoming, blockLines?_append_of_plain hplain, blockLines?_append_of_plain hplain']
    simp only [hperm.mem_iff]
  · have hends : ∀ {lines : List (List Char)},
        (∀ line ∈ lines, fence? line = none ∧ headingLevel line = none) →
        ∀ line ∈ lines, fence? line = none ∧ ¬Ends (headingLevel heading) line :=
      fun hlines line hline => (hlines line hline).imp_right not_ends_of_headingLevel_eq_none
    rw [hcoming, hcoming, fencedIn_append (hends hplain), fencedIn_append (hends hplain')]
  · rw [hresult, hresult]
  -- A fence that is never closed makes no block.
  · have hopen : StaysOpen opening after := staysOpen_iff.2 fun line hline =>
      Bool.eq_false_iff.2 fun hcloses => h ⟨opening, inside, hopens, line, hline, hcloses⟩
    have hstays : StaysOpen opening middle := staysOpen_of_forall fun l hl => (hplain l hl).1
    have hstays' : StaysOpen opening middle' := staysOpen_of_forall fun l hl => (hplain' l hl).1
    rw [hopens.blockLines?_append, hopens.blockLines?_append,
      beforeFence?_append_of_staysOpen hstays, beforeFence?_append_of_staysOpen hstays',
      beforeFence?_eq_none hopen]
    rfl

end NoteCheck.Note
