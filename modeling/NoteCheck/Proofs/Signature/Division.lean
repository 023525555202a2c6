/-
# Texts divided outside brackets

Splitting divides a text at every separator that stands where as many brackets are closed as are
open, and nowhere else. No separator overlaps itself, so a text can be divided in one way only. The
main statement, `split_eq_iff_isDivision_and_split_intercalate`: the parts of a text are its one
division, and balanced parts without separators outside brackets are found again when they are
joined.
-/
import NoteCheck.Proofs.Signature.Brackets
import NoteCheck.Signature.Operation

namespace NoteCheck.Signature.TopLevel

/-! ## Separators -/

/-- The separators in the texts of types and operations. -/
def separators : List (List Char) := [[','], Operation.arrow, Operation.times]

/-- A text that leaves the number of open brackets as it is and begins with none of its own
endings. -/
structure IsSeparator (separator : List Char) : Prop where
  ne_nil : separator ≠ []
  height_eq : height separator = 0
  unbordered : ∀ k < separator.length, 0 < k → ¬separator.drop k <+: separator

theorem isSeparator_of_mem {separator : List Char} (h : separator ∈ separators) :
    IsSeparator separator := by
  have hall : ∀ separator ∈ separators, separator ≠ [] ∧ height separator = 0 ∧
      ∀ k < separator.length, 0 < k → ¬separator.drop k <+: separator := by decide
  obtain ⟨hne, hheight, hborder⟩ := hall separator h
  exact ⟨hne, hheight, hborder⟩

/-! ## Parts -/

variable {separator : List Char}

/-- No separator stands in a text where as many brackets are closed as are open, with a number of
brackets that are open before the text. -/
def Whole (separator : List Char) (depth : Int) (cs : List Char) : Prop :=
  ∀ a b, cs = a ++ separator ++ b → depth + height a ≠ 0

theorem whole_nil {depth : Int} (hne : separator ≠ []) : Whole separator depth [] := by
  intro a b h
  simp [hne] at h

/-- A text stays whole with a character before it with which no separator begins there. -/
theorem Whole.cons {depth : Int} {c : Char} {cs : List Char}
    (h : Whole separator (depth + weight c) cs) (hcut : depth = 0 → ¬separator <+: c :: cs) :
    Whole separator depth (c :: cs) := by
  intro a b heq
  cases a with
  | nil =>
    rw [List.nil_append] at heq
    rw [height_nil, Int.add_zero]
    intro hdepth
    exact hcut hdepth (heq ▸ List.prefix_append separator b)
  | cons d a =>
    rw [List.cons_append, List.cons_append] at heq
    obtain ⟨rfl, htail⟩ := List.cons.inj heq
    rw [height_cons, ← Int.add_assoc]
    exact h a b htail

/-- A text is either a part of its own, or its first part ends where the first separator stands
outside brackets, and what follows is split by itself. -/
theorem splitFrom_cases (hne : separator ≠ []) (depth : Int) (cs : List Char) :
    (splitFrom separator 0 depth cs = [cs] ∧ Whole separator depth cs) ∨
      ∃ p rest, cs = p ++ (separator ++ rest) ∧ depth + height p = 0 ∧ Whole separator depth p ∧
        splitFrom separator 0 depth cs = p :: split separator rest := by
  -- The scan takes one character at a time until the first cut.
  induction cs generalizing depth with
  | nil => exact .inl ⟨rfl, whole_nil hne⟩
  | cons c cs ih =>
    rw [splitFrom]
    split
    · rename_i hcut
      obtain ⟨rfl, hcut⟩ := hcut
      obtain ⟨rest, hrest⟩ := List.isPrefixOf_iff_prefix.1 hcut
      refine .inr ⟨[], rest, hrest.symm, rfl, whole_nil hne, ?_⟩
      obtain ⟨s, more, rfl⟩ := List.exists_cons_of_ne_nil hne
      rw [List.cons_append] at hrest
      obtain ⟨rfl, rfl⟩ := List.cons.inj hrest
      rw [splitFrom_skip, List.length_cons, Nat.add_sub_cancel, List.drop_left, split]
    · rename_i hcut
      rw [not_and, List.isPrefixOf_iff_prefix] at hcut
      obtain ⟨hsplit, hwhole⟩ | ⟨p, rest, rfl, hheight, hwhole, hsplit⟩ := ih (depth + weight c)
      · rw [hsplit]
        exact .inl ⟨rfl, hwhole.cons hcut⟩
      · rw [hsplit]
        refine .inr ⟨c :: p, rest, rfl, by rw [height_cons, ← Int.add_assoc, hheight], ?_, rfl⟩
        refine hwhole.cons fun hdepth hp => hcut hdepth (hp.trans ?_)
        exact List.prefix_append (c :: p) (separator ++ rest)

/-- A separator outside brackets ends one part only: another part that ends at a separator outside
brackets would have the first one in it, or the two separators would overlap. -/
theorem eq_of_append_separator (hsep : IsSeparator separator) {p p' rest rest' : List Char}
    (hp : Whole separator 0 p ∧ height p = 0) (hp' : Whole separator 0 p' ∧ height p' = 0)
    (h : p ++ (separator ++ rest) = p' ++ (separator ++ rest')) : p = p' ∧ rest = rest' := by
  wlog hle : p.length ≤ p'.length generalizing p p' rest rest'
  · obtain ⟨hparts, hrests⟩ := this hp' hp h.symm (Nat.le_of_not_le hle)
    exact ⟨hparts.symm, hrests.symm⟩
  -- What the longer part has more than the shorter one is called `d`.
  obtain ⟨d, rfl⟩ : p <+: p' :=
    List.prefix_of_prefix_length_le (List.prefix_append p _) (h ▸ List.prefix_append p' _) hle
  rw [List.append_assoc, List.append_cancel_left_eq] at h
  obtain rfl | hd := eq_or_ne d []
  · rw [List.nil_append, List.append_cancel_left_eq] at h
    exact ⟨(List.append_nil p).symm, h⟩
  exfalso
  obtain hshort | hlong := Nat.lt_or_ge d.length separator.length
  -- The separators overlap: what is left of the first after `d` begins the second.
  · have hdrop := congrArg (List.drop d.length) h
    rw [List.drop_append_of_le_length (Nat.le_of_lt hshort), List.drop_left] at hdrop
    refine hsep.unbordered d.length hshort (List.length_pos_iff.2 hd) ?_
    refine List.prefix_of_prefix_length_le (List.prefix_append _ rest)
      (hdrop ▸ List.prefix_append separator rest') ?_
    rw [List.length_drop]
    exact Nat.sub_le ..
  -- The first separator stands in the longer part.
  · obtain ⟨b, rfl⟩ : separator <+: d :=
      List.prefix_of_prefix_length_le (List.prefix_append separator rest)
        (h ▸ List.prefix_append d _) hlong
    refine hp'.1 p b (List.append_assoc ..).symm ?_
    rw [hp.2, Int.add_zero]

/-! ## Divisions -/

/-- The parts of a text: joined with the separator they are the text, every cut is where as many
brackets are closed as are open, and at no such point of the text does a separator stand in a
part. What precedes a part in the text is every part before it with the separator after it. -/
structure IsDivision (separator text : List Char) (parts : List (List Char)) : Prop where
  ne_nil : parts ≠ []
  join_eq : separator.intercalate parts = text
  height_cut : ∀ before p after, parts = before ++ p :: after → after ≠ [] →
    height (before.flatMap (· ++ separator) ++ p) = 0
  height_ne : ∀ before p after, parts = before ++ p :: after → ∀ a b, p = a ++ separator ++ b →
    height (before.flatMap (· ++ separator) ++ a) ≠ 0

theorem isDivision_singleton_iff {text p : List Char} :
    IsDivision separator text [p] ↔ text = p ∧ Whole separator 0 p := by
  have hsole : ∀ {before after : List (List Char)} {q}, [p] = before ++ q :: after →
      before = [] ∧ p = q ∧ after = [] := by
    intro before after q h
    obtain ⟨rfl, hrest⟩ | ⟨before, rfl, hrest⟩ := List.cons_eq_append_iff.1 h
    · obtain ⟨rfl, hafter⟩ := List.cons.inj hrest
      exact ⟨rfl, rfl, hafter⟩
    · simp at hrest
  constructor
  · intro h
    refine ⟨by rw [← h.join_eq, List.intercalate_singleton], fun a b hp => ?_⟩
    rw [Int.zero_add]
    exact h.height_ne [] p [] rfl a b hp
  · rintro ⟨rfl, hwhole⟩
    refine ⟨List.cons_ne_nil _ _, List.intercalate_singleton, ?_, ?_⟩
    · intro before q after h hafter
      exact absurd (hsole h).2.2 hafter
    · intro before q after h a b hq
      obtain ⟨rfl, rfl, -⟩ := hsole h
      have hne := hwhole a b hq
      rwa [Int.zero_add] at hne

/-- A part that closes as many brackets as it opens, and the separator after it, leave the count as
it is. -/
theorem height_flatMap_cons (hheight : height separator = 0) {p : List Char} (hp : height p = 0)
    (before : List (List Char)) (cs : List Char) :
    height ((p :: before).flatMap (· ++ separator) ++ cs) =
      height (before.flatMap (· ++ separator) ++ cs) := by
  rw [List.flatMap_cons, List.append_assoc, height_append, height_append, hp, hheight, Int.zero_add,
    Int.zero_add]

/-- A text in several parts is the first of them and, after a separator, a text in the others. -/
theorem isDivision_cons_iff (hheight : height separator = 0) {text p q : List Char}
    {parts : List (List Char)} : IsDivision separator text (p :: q :: parts) ↔
      (Whole separator 0 p ∧ height p = 0) ∧
        ∃ rest, text = p ++ (separator ++ rest) ∧ IsDivision separator rest (q :: parts) := by
  -- each condition on the parts is one on the first and one on the others, which begin at depth 0
  constructor
  · intro h
    have hp : height p = 0 := h.height_cut [] p (q :: parts) rfl (List.cons_ne_nil q parts)
    refine ⟨⟨fun a b heq => ?_, hp⟩, separator.intercalate (q :: parts), ?_,
      List.cons_ne_nil q parts, rfl, ?_, ?_⟩
    · rw [Int.zero_add]
      exact h.height_ne [] p (q :: parts) rfl a b heq
    · rw [← h.join_eq, List.intercalate_cons_cons, List.append_assoc]
    · intro before r after heq hafter
      have hcut := h.height_cut (p :: before) r after (by rw [heq]; rfl) hafter
      rwa [height_flatMap_cons hheight hp] at hcut
    · intro before r after heq a b hr
      have hne := h.height_ne (p :: before) r after (by rw [heq]; rfl) a b hr
      rwa [height_flatMap_cons hheight hp] at hne
  · rintro ⟨⟨hwhole, hp⟩, rest, rfl, h⟩
    refine ⟨List.cons_ne_nil _ _, ?_, ?_, ?_⟩
    · rw [List.intercalate_cons_cons, h.join_eq, List.append_assoc]
    · intro before r after heq hafter
      obtain ⟨rfl, hrest⟩ | ⟨before, rfl, hrest⟩ := List.cons_eq_append_iff.1 heq
      · obtain ⟨rfl, -⟩ := List.cons.inj hrest
        exact hp
      · rw [height_flatMap_cons hheight hp]
        exact h.height_cut before r after hrest hafter
    · intro before r after heq a b hr
      obtain ⟨rfl, hrest⟩ | ⟨before, rfl, hrest⟩ := List.cons_eq_append_iff.1 heq
      · obtain ⟨rfl, -⟩ := List.cons.inj hrest
        have hne := hwhole a b hr
        rwa [Int.zero_add] at hne
      · rw [height_flatMap_cons hheight hp]
        exact h.height_ne before r after hrest a b hr

/-- A text without separators outside brackets is a part of its own. -/
theorem split_eq_singleton_iff (hne : separator ≠ []) {text p : List Char} :
    split separator text = [p] ↔ text = p ∧ Whole separator 0 p := by
  obtain ⟨hsplit, hwhole⟩ | ⟨first, rest, rfl, hheight, -, hsplit⟩ :=
    splitFrom_cases hne 0 text
  · rw [split, hsplit, List.singleton_inj]
    exact ⟨fun h => ⟨h, h ▸ hwhole⟩, And.left⟩
  · rw [split, hsplit]
    refine iff_of_false (fun h => ?_) ?_
    · exact splitFrom_ne_nil separator 0 0 rest (List.cons.inj h).2
    · rintro ⟨rfl, hwhole⟩
      exact hwhole first rest (List.append_assoc ..).symm hheight

/-- The parts of a text are its one division. -/
theorem split_eq_iff (hsep : IsSeparator separator) {text : List Char} {parts : List (List Char)} :
    split separator text = parts ↔ IsDivision separator text parts := by
  induction parts generalizing text with
  | nil => exact iff_of_false (splitFrom_ne_nil separator 0 0 text) fun h => h.ne_nil rfl
  | cons p parts ih =>
    cases parts with
    | nil => rw [split_eq_singleton_iff hsep.ne_nil, isDivision_singleton_iff]
    | cons q parts =>
      rw [isDivision_cons_iff hsep.height_eq]
      obtain ⟨hsplit, hwhole⟩ | ⟨first, rest, rfl, hheight, hwhole, hsplit⟩ :=
        splitFrom_cases hsep.ne_nil 0 text
      · rw [split, hsplit]
        refine iff_of_false (by simp) ?_
        rintro ⟨⟨-, hp⟩, rest, rfl, -⟩
        refine hwhole p rest (List.append_assoc ..).symm ?_
        rw [hp, Int.add_zero]
      · rw [Int.zero_add] at hheight
        rw [split, hsplit, List.cons.injEq]
        constructor
        · rintro ⟨rfl, hrest⟩
          exact ⟨⟨hwhole, hheight⟩, rest, rfl, ih.1 hrest⟩
        · rintro ⟨hp, rest', heq, hrest⟩
          obtain ⟨rfl, rfl⟩ := eq_of_append_separator hsep ⟨hwhole, hheight⟩ hp heq
          exact ⟨rfl, ih.2 hrest⟩

/-- Parts without separators outside brackets that close as many brackets as they open are a
division of the joined text. -/
theorem isDivision_intercalate (hheight : height separator = 0) {parts : List (List Char)}
    (hne : parts ≠ []) (h : ∀ p ∈ parts, Whole separator 0 p ∧ height p = 0) :
    IsDivision separator (separator.intercalate parts) parts := by
  induction parts with
  | nil => exact absurd rfl hne
  | cons p parts ih =>
    obtain ⟨hp, hparts⟩ := List.forall_mem_cons.1 h
    cases parts with
    | nil => exact isDivision_singleton_iff.2 ⟨List.intercalate_singleton, hp.1⟩
    | cons q parts =>
      rw [isDivision_cons_iff hheight]
      refine ⟨hp, _, ?_, ih (List.cons_ne_nil q parts) hparts⟩
      rw [List.intercalate_cons_cons, List.append_assoc]

/-- Splitting a text at a separator of types or operations divides it, in the only way there is.
Balanced parts that have no such separator outside brackets are found again in the joined text. -/
theorem split_eq_iff_isDivision_and_split_intercalate (hsep : separator ∈ separators) :
    (∀ text parts, split separator text = parts ↔ IsDivision separator text parts) ∧
      ∀ parts : List (List Char), parts ≠ [] →
        (∀ p ∈ parts, Balanced p ∧ ∀ a b, p = a ++ separator ++ b → height a ≠ 0) →
          split separator (separator.intercalate parts) = parts := by
  have hseparator := isSeparator_of_mem hsep
  refine ⟨fun text parts => split_eq_iff hseparator, fun parts hne h => ?_⟩
  refine (split_eq_iff hseparator).2 (isDivision_intercalate hseparator.height_eq hne ?_)
  intro p hp
  obtain ⟨hbalanced, hwhole⟩ := h p hp
  refine ⟨fun a b heq => ?_, hbalanced.height_eq_zero⟩
  rw [Int.zero_add]
  exact hwhole a b heq

/-- An arrow in brackets is no cut, and a dash before an arrow belongs to the part before it. -/
theorem split_eq_iff_isDivision_and_split_intercalate_of_arrows :
    let parts := ["a-".toList, "(b->c)".toList, ">×".toList]
    Operation.arrow ∈ separators ∧ parts ≠ [] ∧
      (∀ p ∈ parts, Balanced p ∧ ∀ a b, p = a ++ Operation.arrow ++ b → height a ≠ 0) ∧
      split Operation.arrow "a-->(b->c)->>×".toList = parts := by
  intro parts
  have hsep : Operation.arrow ∈ separators := by decide
  have hparts : ∀ p ∈ parts, Balanced p ∧ ∀ a b, p = a ++ Operation.arrow ++ b → height a ≠ 0 := by
    intro p hp
    -- That no arrow stands outside brackets is read off a split that finds no cut.
    have hsole : ∀ p ∈ parts, Balanced p ∧ split Operation.arrow p = [p] := by decide
    obtain ⟨hbalanced, hsplit⟩ := hsole p hp
    refine ⟨hbalanced, fun a b heq => ?_⟩
    have hwhole := ((split_eq_singleton_iff (by decide)).1 hsplit).2 a b heq
    rwa [Int.zero_add] at hwhole
  exact ⟨hsep, by decide, hparts,
    (split_eq_iff_isDivision_and_split_intercalate hsep).2 parts (by decide) hparts⟩

end NoteCheck.Signature.TopLevel
