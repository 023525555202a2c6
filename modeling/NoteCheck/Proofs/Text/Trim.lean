/-
# Texts without blanks around them

Trimming takes a run of blanks off either end of a text. The main statements: `exists_append_trim`,
what is taken off are blanks, and `trimmed_trim`, what is left neither begins nor ends with one.
-/
import NoteCheck.Text.Blank
import NoteCheck.Text.Identifier
import Mathlib.Data.List.DropRight
import Mathlib.Tactic.Common

namespace NoteCheck.Text

/-- A text that neither begins nor ends with a blank. -/
structure Trimmed (cs : List Char) : Prop where
  head : ∀ c ∈ cs.head?, isBlank c = false
  last : ∀ c ∈ cs.getLast?, isBlank c = false

theorem trimEnd_eq (cs : List Char) : trimEnd cs = cs.rdropWhile isBlank := rfl

theorem trimmed_of_forall {cs : List Char} (h : ∀ c ∈ cs, isBlank c = false) : Trimmed cs :=
  ⟨fun c hc => h c (List.mem_of_mem_head? hc), fun c hc => h c (List.mem_of_mem_getLast? hc)⟩

/-- A text is trimmed when its first and its last part are. -/
theorem Trimmed.append {a b : List Char} (ha : Trimmed a) (hb : Trimmed b) (hane : a ≠ [])
    (hbne : b ≠ []) (between : List Char) : Trimmed (a ++ (between ++ b)) where
  head := by
    obtain ⟨c, a, rfl⟩ := List.exists_cons_of_ne_nil hane
    exact ha.head
  last := by
    rw [List.getLast?_append_of_ne_nil _ (by simp [hbne]), List.getLast?_append_of_ne_nil _ hbne]
    exact hb.last

/-- A trimmed text stays as it is. -/
theorem Trimmed.trim_eq {cs : List Char} (h : Trimmed cs) : trim cs = cs := by
  have hstart : trimStart cs = cs := by
    cases cs with
    | nil => rfl
    | cons c cs =>
      rw [trimStart, List.dropWhile_cons_of_neg]
      simp [h.head c rfl]
  rw [trim, hstart, trimEnd_eq, List.rdropWhile_eq_self_iff]
  intro hne
  simp [h.last _ (List.getLast?_eq_getLast_of_ne_nil hne)]

/-- The blanks around a text, and the text between them. -/
theorem exists_append_trim (cs : List Char) :
    ∃ a b, cs = a ++ trim cs ++ b ∧ (∀ c ∈ a, isBlank c) ∧ ∀ c ∈ b, isBlank c := by
  refine ⟨cs.takeWhile isBlank, (trimStart cs).rtakeWhile isBlank, ?_, ?_, ?_⟩
  · rw [List.append_assoc, trim, trimEnd_eq, List.rdropWhile_append_rtakeWhile, trimStart,
      List.takeWhile_append_dropWhile]
  · intro c hc
    exact List.mem_takeWhile_imp hc
  · intro c hc
    exact List.mem_rtakeWhile_imp hc

/-- Nothing is put in by trimming. -/
theorem mem_of_mem_trim {cs : List Char} {c : Char} (h : c ∈ trim cs) : c ∈ cs := by
  obtain ⟨a, b, hcs, -, -⟩ := exists_append_trim cs
  rw [hcs]
  exact List.mem_append_left _ (List.mem_append_right _ h)

theorem trimmed_trim (cs : List Char) : Trimmed (trim cs) where
  head := by
    intro c hc
    -- the first character of what is left was not dropped at the beginning
    obtain ⟨rest, hrest⟩ : trim cs <+: trimStart cs := by
      rw [trim, trimEnd_eq]
      exact List.rdropWhile_prefix isBlank _
    rw [Option.mem_def, List.head?_eq_some_iff] at hc
    obtain ⟨tail, htail⟩ := hc
    rw [htail, List.cons_append] at hrest
    have hhead := List.head?_dropWhile_not isBlank cs
    rw [← trimStart, ← hrest] at hhead
    simpa using hhead
  last := by
    intro c hc
    obtain ⟨hne, rfl⟩ := List.mem_getLast?_eq_getLast hc
    exact Bool.eq_false_iff.2 (List.rdropWhile_last_not isBlank (trimStart cs) hne)

/-- A text is blank when nothing is left of it. -/
theorem trim_eq_nil_iff {cs : List Char} : trim cs = [] ↔ ∀ c ∈ cs, isBlank c := by
  constructor
  · intro h
    obtain ⟨a, b, heq, ha, hb⟩ := exists_append_trim cs
    rw [h, List.append_nil] at heq
    intro c hc
    rw [heq, List.mem_append] at hc
    obtain hc | hc := hc
    · exact ha c hc
    · exact hb c hc
  · intro h
    rw [trim, trimStart, List.dropWhile_eq_nil_iff.2 h]
    rfl

/-- A trimmed text with blanks around it is what is left of the whole. -/
theorem Trimmed.trim_append_eq {a cs b : List Char} (h : Trimmed cs) (ha : ∀ c ∈ a, isBlank c)
    (hb : ∀ c ∈ b, isBlank c) : trim (a ++ cs ++ b) = cs := by
  cases cs with
  | nil =>
    rw [List.append_nil, trim_eq_nil_iff]
    intro c hc
    obtain hc | hc := List.mem_append.1 hc
    · exact ha c hc
    · exact hb c hc
  | cons c cs =>
    have hstart : trimStart (a ++ (c :: cs) ++ b) = (c :: cs) ++ b := by
      rw [trimStart, List.append_assoc, List.dropWhile_append_of_pos ha, List.cons_append,
        List.dropWhile_cons_of_neg]
      simp [h.head c rfl]
    have hend : trimEnd (c :: cs) = c :: cs := by
      have htrim := h.trim_eq
      rwa [trim, trimStart, List.dropWhile_cons_of_neg (by simp [h.head c rfl])] at htrim
    rw [trim, hstart, trimEnd, List.reverse_append, List.dropWhile_append_of_pos
      fun c hc => hb c (List.mem_reverse.1 hc)]
    exact hend

/-- Blanks around a text are taken off with those that it has. -/
theorem trim_append {a b : List Char} (ha : ∀ c ∈ a, isBlank c) (hb : ∀ c ∈ b, isBlank c)
    (cs : List Char) : trim (a ++ cs ++ b) = trim cs := by
  obtain ⟨a', b', heq, ha', hb'⟩ := exists_append_trim cs
  have hsplit : a ++ cs ++ b = (a ++ a') ++ trim cs ++ (b' ++ b) := by
    conv_lhs => rw [heq]
    simp only [List.append_assoc]
  rw [hsplit]
  refine (trimmed_trim cs).trim_append_eq ?_ ?_
  · exact List.forall_mem_append.2 ⟨ha, ha'⟩
  · exact List.forall_mem_append.2 ⟨hb', hb⟩

theorem filter_eq_nil_of_isBlank {cs : List Char} (h : ∀ c ∈ cs, isBlank c) :
    cs.filter (!isBlank ·) = [] := by
  rw [List.filter_eq_nil_iff]
  intro c hc
  simp [h c hc]

theorem filter_trim (cs : List Char) :
    (trim cs).filter (!isBlank ·) = cs.filter (!isBlank ·) := by
  obtain ⟨a, b, heq, ha, hb⟩ := exists_append_trim cs
  conv_rhs => rw [heq]
  rw [List.filter_append, List.filter_append, filter_eq_nil_of_isBlank ha,
    filter_eq_nil_of_isBlank hb, List.append_nil, List.nil_append]

/-- No character of an identifier is blank. -/
theorem isIdentifierChar_eq_false_of_isBlank {c : Char} (h : isBlank c = true) :
    isIdentifierChar c = false := by
  have hunderscore : c ≠ '_' := by
    rintro rfl
    exact absurd h (by decide)
  simp only [isBlank, inRanges, blankRanges, List.any_cons, List.any_nil, Bool.or_eq_true,
    Bool.and_eq_true, decide_eq_true_eq] at h
  rw [isIdentifierChar, Bool.or_eq_false_iff, beq_eq_false_iff_ne]
  refine ⟨?_, hunderscore⟩
  delta Char.isAlphanum Char.isAlpha Char.isUpper Char.isLower Char.isDigit
  simp only [Bool.or_eq_false_iff, Bool.and_eq_false_iff, decide_eq_false_iff_not,
    UInt32.le_iff_toNat_le, ge_iff_le, Char.toNat] at h ⊢
  simp at h ⊢
  omega

end NoteCheck.Text
