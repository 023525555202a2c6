/-
# Balanced brackets

Texts in which every bracket is closed and none is closed that is not open. The main statements:
`balanced_iff`, balance by counting, `inside?_eq_some_iff`, a bracket that closes at the end
encloses a balanced text, and `split_append`, a text without cuts whose brackets are even is the
first part of a text in which a separator follows it.
-/
import NoteCheck.Signature.TopLevel
import Mathlib.Tactic.Common

namespace NoteCheck.Signature.TopLevel

/-! ## Open brackets -/

/-- The number of open brackets after a text, with as many open before it. There is none when a
bracket is closed that is not open. -/
def openAfter? : Nat → List Char → Option Nat
  | depth, [] => some depth
  | depth, c :: cs =>
    if isOpening c then openAfter? (depth + 1) cs
    else if isClosing c then if depth = 0 then none else openAfter? (depth - 1) cs
    else openAfter? depth cs

/-- Every bracket of the text is closed in it, and none is closed that is not open. -/
def Balanced (cs : List Char) : Prop := openAfter? 0 cs = some 0

instance (cs : List Char) : Decidable (Balanced cs) := inferInstanceAs (Decidable (_ = _))

/-- What a text adds to the number of open brackets. -/
def height : List Char → Int
  | [] => 0
  | c :: cs => weight c + height cs

@[simp] theorem height_nil : height [] = 0 := rfl

@[simp] theorem height_cons (c : Char) (cs : List Char) :
    height (c :: cs) = weight c + height cs := rfl

@[simp] theorem height_append (a b : List Char) : height (a ++ b) = height a + height b := by
  induction a with
  | nil => rw [List.nil_append, height_nil, Int.zero_add]
  | cons c a ih => rw [List.cons_append, height_cons, height_cons, ih, Int.add_assoc]

/-- A character of a class to which no opening bracket belongs is none. -/
theorem isOpening_eq_false {p : Char → Bool} {c : Char} (h : p c = true) (hround : p '(' = false)
    (hsquare : p '[' = false) : isOpening c = false := by
  rw [isOpening, Bool.or_eq_false_iff, beq_eq_false_iff_ne, beq_eq_false_iff_ne]
  constructor
  · rintro rfl
    exact Bool.false_ne_true (hround.symm.trans h)
  · rintro rfl
    exact Bool.false_ne_true (hsquare.symm.trans h)

/-- A character of a class to which no closing bracket belongs is none. -/
theorem isClosing_eq_false {p : Char → Bool} {c : Char} (h : p c = true) (hround : p ')' = false)
    (hsquare : p ']' = false) : isClosing c = false := by
  rw [isClosing, Bool.or_eq_false_iff, beq_eq_false_iff_ne, beq_eq_false_iff_ne]
  constructor
  · rintro rfl
    exact Bool.false_ne_true (hround.symm.trans h)
  · rintro rfl
    exact Bool.false_ne_true (hsquare.symm.trans h)

/-- A closing bracket opens nothing. -/
theorem isOpening_eq_false_of_isClosing {c : Char} (h : isClosing c = true) :
    isOpening c = false :=
  isOpening_eq_false h (by decide) (by decide)

/-- The brackets that are open after one text are open before the next one. -/
theorem openAfter?_append (depth : Nat) (a b : List Char) :
    openAfter? depth (a ++ b) = (openAfter? depth a).bind (openAfter? · b) := by
  fun_induction openAfter? depth a with
  | case1 => rfl
  | case2 _ _ _ hopen ih => simpa [openAfter?, hopen] using ih
  | case3 _ _ hopen hclose => simp [openAfter?, hopen, hclose]
  | case4 _ _ _ hopen hclose hdepth ih => simpa [openAfter?, hopen, hclose, hdepth] using ih
  | case5 _ _ _ hopen hclose ih => simpa [openAfter?, hopen, hclose] using ih

/-- Further open brackets stay open over a text that closes none of them. -/
theorem openAfter?_add {depth after : Nat} {cs : List Char} (h : openAfter? depth cs = some after)
    (k : Nat) : openAfter? (depth + k) cs = some (after + k) := by
  fun_induction openAfter? depth cs with
  | case1 depth =>
    obtain rfl := Option.some.inj h
    rfl
  | case2 depth c cs hopen ih =>
    rw [openAfter?, if_pos hopen, Nat.add_right_comm]
    exact ih h
  | case3 => cases h
  | case4 depth c cs hopen hclose hdepth ih =>
    rw [openAfter?, if_neg hopen, if_pos hclose, if_neg (by omega),
      show depth + k - 1 = depth - 1 + k by omega]
    exact ih h
  | case5 depth c cs hopen hclose ih =>
    rw [openAfter?, if_neg hopen, if_neg hclose]
    exact ih h

/-- The number of open brackets after a text is what the text adds to the number before it. -/
theorem height_of_openAfter? {depth after : Nat} {cs : List Char}
    (h : openAfter? depth cs = some after) : (depth : Int) + height cs = after := by
  fun_induction openAfter? depth cs with
  | case1 depth =>
    obtain rfl := Option.some.inj h
    simp
  | case2 depth c cs hopen ih =>
    have := ih h
    rw [height_cons, weight, if_pos hopen]
    omega
  | case3 => cases h
  | case4 depth c cs hopen hclose hdepth ih =>
    have := ih h
    rw [height_cons, weight, if_neg hopen, if_pos hclose]
    omega
  | case5 depth c cs hopen hclose ih =>
    have := ih h
    rw [height_cons, weight, if_neg hopen, if_neg hclose]
    omega

/-- A text never closes a bracket that is not open if none of its beginnings closes more brackets
than are open. -/
theorem exists_openAfter?_eq {depth : Nat} {cs : List Char}
    (h : ∀ a, a <+: cs → 0 ≤ (depth : Int) + height a) :
    ∃ after, openAfter? depth cs = some after := by
  fun_induction openAfter? depth cs with
  | case1 depth => exact ⟨depth, rfl⟩
  | case2 depth c cs hopen ih =>
    refine ih fun a ha => ?_
    have := h (c :: a) ((List.prefix_cons_inj c).2 ha)
    rw [height_cons, weight, if_pos hopen] at this
    omega
  | case3 c cs hopen hclose =>
    have := h [c] ((List.prefix_cons_inj c).2 (List.nil_prefix))
    rw [height_cons, height_nil, weight, if_neg hopen, if_pos hclose] at this
    omega
  | case4 depth c cs hopen hclose hdepth ih =>
    refine ih fun a ha => ?_
    have := h (c :: a) ((List.prefix_cons_inj c).2 ha)
    rw [height_cons, weight, if_neg hopen, if_pos hclose] at this
    omega
  | case5 depth c cs hopen hclose ih =>
    refine ih fun a ha => ?_
    have := h (c :: a) ((List.prefix_cons_inj c).2 ha)
    rw [height_cons, weight, if_neg hopen, if_neg hclose] at this
    omega

/-- Balance by counting: as many brackets are closed as are opened, and no beginning of the text
closes more than it opens. -/
theorem balanced_iff {cs : List Char} :
    Balanced cs ↔ height cs = 0 ∧ ∀ a, a <+: cs → 0 ≤ height a := by
  constructor
  · intro h
    refine ⟨by simpa using height_of_openAfter? h, ?_⟩
    rintro a ⟨b, rfl⟩
    rw [Balanced, openAfter?_append] at h
    obtain ⟨k, hk, -⟩ := Option.bind_eq_some_iff.1 h
    have := height_of_openAfter? hk
    omega
  · rintro ⟨hheight, hbeginning⟩
    obtain ⟨after, hafter⟩ : ∃ after, openAfter? 0 cs = some after :=
      exists_openAfter?_eq fun a ha => by simpa using hbeginning a ha
    have := height_of_openAfter? hafter
    obtain rfl : after = 0 := by omega
    exact hafter

/-- A balanced text adds nothing to the number of open brackets. -/
theorem Balanced.height_eq_zero {cs : List Char} (h : Balanced cs) : height cs = 0 :=
  (balanced_iff.1 h).1

/-- The empty text is balanced. -/
theorem balanced_nil : Balanced [] := rfl

/-- Two balanced texts are balanced one after the other. -/
theorem Balanced.append {a b : List Char} (ha : Balanced a) (hb : Balanced b) :
    Balanced (a ++ b) := by
  rw [Balanced, openAfter?_append, ha]
  exact hb

/-- A bracket, a balanced text and a bracket that closes are a balanced text. -/
theorem Balanced.enclosed {cs : List Char} (h : Balanced cs) {o c : Char} (ho : isOpening o = true)
    (hc : isClosing c = true) : Balanced (o :: (cs ++ [c])) := by
  rw [Balanced, openAfter?, if_pos ho, openAfter?_append, openAfter?_add h 1]
  simp [openAfter?, hc, isOpening_eq_false_of_isClosing hc]

/-- A text without brackets is balanced. -/
theorem balanced_of_forall {cs : List Char}
    (h : ∀ c ∈ cs, isOpening c = false ∧ isClosing c = false) : Balanced cs := by
  induction cs with
  | nil => rfl
  | cons c cs ih =>
    obtain ⟨⟨hopen, hclose⟩, hcs⟩ := List.forall_mem_cons.1 h
    rw [Balanced, openAfter?, if_neg (by simp [hopen]), if_neg (by simp [hclose])]
    exact ih hcs

/-! ## What a bracket encloses -/

/-- With further brackets open, a bracket encloses all that follows but the last character, which
closes it when the further brackets are closed before. -/
theorem inside?_depth_eq_some_iff {depth : Nat} {cs inner : List Char} :
    inside? depth cs = some inner ↔
      ∃ c, isClosing c = true ∧ cs = inner ++ [c] ∧ openAfter? depth inner = some 0 := by
  induction cs generalizing depth inner with
  | nil => simp [inside?]
  | cons d cs ih =>
    rw [inside?]
    split
    · rename_i hlast
      rw [Bool.and_eq_true, beq_iff_eq] at hlast
      obtain ⟨hclose, rfl⟩ := hlast
      have hopen := isOpening_eq_false_of_isClosing hclose
      -- a bracket at depth 0 closes all: it has to be the last character
      cases inner with
      | nil =>
        cases cs with
        | nil => simp [openAfter?, hclose]
        | cons e cs => simp
      | cons e inner =>
        constructor
        · intro h
          split at h
          · cases Option.some.inj h
          · cases h
        · rintro ⟨c, -, heq, hdepth⟩
          obtain ⟨rfl, -⟩ := List.cons.inj heq
          simp [openAfter?, hopen, hclose] at hdepth
    · rename_i hlast
      rw [Bool.and_eq_true, beq_iff_eq, not_and] at hlast
      -- any other character leaves the depth that the rest begins with
      rw [Option.map_eq_some_iff]
      constructor
      · rintro ⟨rest, hrest, rfl⟩
        obtain ⟨c, hc, rfl, hdepth⟩ := ih.1 hrest
        refine ⟨c, hc, rfl, ?_⟩
        rw [openAfter?]
        split_ifs at hdepth ⊢ with hopen hclose hzero
        · exact hdepth
        · exact absurd hzero (hlast hclose)
        · exact hdepth
        · exact hdepth
      · rintro ⟨c, hc, heq, hdepth⟩
        cases inner with
        | nil =>
          obtain ⟨rfl, rfl⟩ := List.cons.inj heq
          obtain rfl := Option.some.inj hdepth
          exact absurd rfl (hlast hc)
        | cons e inner =>
          obtain ⟨rfl, rfl⟩ := List.cons.inj heq
          refine ⟨inner, ih.2 ⟨c, hc, rfl, ?_⟩, rfl⟩
          rw [openAfter?] at hdepth
          split_ifs at hdepth ⊢ with hopen hclose hzero
          · exact hdepth
          · exact hdepth
          · exact hdepth

/-- A bracket that closes with the last character encloses a balanced text. -/
theorem inside?_eq_some_iff {cs inner : List Char} :
    inside? 0 cs = some inner ↔ ∃ c, isClosing c = true ∧ cs = inner ++ [c] ∧ Balanced inner :=
  inside?_depth_eq_some_iff

/-! ## Texts without cuts -/

/-- No separator is cut off inside a text, whatever follows it. -/
def Uncut (separator : List Char) (depth : Int) (cs : List Char) : Prop :=
  ∀ rest, ∃ first others,
    splitFrom separator 0 (depth + height cs) rest = first :: others ∧
      splitFrom separator 0 depth (cs ++ rest) = (cs ++ first) :: others

section

variable {separator : List Char} {depth : Int}

/-- The empty text is not cut. -/
theorem uncut_nil : Uncut separator depth [] := by
  intro rest
  obtain ⟨first, others, h⟩ := List.exists_cons_of_ne_nil
    (splitFrom_ne_nil separator 0 depth rest)
  exact ⟨first, others, by simpa using h, h⟩

/-- Two texts that are not cut are not cut one after the other. -/
theorem Uncut.append {a b : List Char} (ha : Uncut separator depth a)
    (hb : Uncut separator (depth + height a) b) : Uncut separator depth (a ++ b) := by
  intro rest
  obtain ⟨first, others, hfirst, hsplit⟩ := hb rest
  obtain ⟨first', others', hfirst', hsplit'⟩ := ha (b ++ rest)
  rw [hsplit] at hfirst'
  obtain ⟨rfl, rfl⟩ := List.cons.inj hfirst'
  exact ⟨first, others, by rw [height_append, ← Int.add_assoc, hfirst], by
    rw [List.append_assoc, hsplit', List.append_assoc]⟩

/-- A character makes no cut when no separator can begin with it there. -/
theorem uncut_singleton {c : Char} (h : depth = 0 → separator.head? ≠ some c)
    (hne : separator ≠ []) : Uncut separator depth [c] := by
  intro rest
  obtain ⟨first, others, hrest⟩ := List.exists_cons_of_ne_nil
    (splitFrom_ne_nil separator 0 (depth + weight c) rest)
  refine ⟨first, others, by simpa using hrest, ?_⟩
  have hcut : ¬(depth = 0 ∧ separator.isPrefixOf (c :: rest)) := by
    rintro ⟨hdepth, hcut⟩
    obtain ⟨s, separator, rfl⟩ := List.exists_cons_of_ne_nil hne
    have heq := (List.cons_prefix_cons.1 (List.isPrefixOf_iff_prefix.1 hcut)).1
    exact h hdepth (by rw [heq]; rfl)
  show splitFrom separator 0 depth (c :: rest) = _
  rw [splitFrom, if_neg hcut, hrest]
  rfl

/-- Inside brackets a balanced text has no cuts. -/
theorem uncut_of_openAfter? {d after : Nat} {cs : List Char} (hne : separator ≠ [])
    (h : openAfter? d cs = some after) {k : Int} (hk : 0 < k) :
    Uncut separator (k + d) cs := by
  fun_induction openAfter? d cs with
  | case1 => exact uncut_nil
  | case2 d c cs hopen ih =>
    refine (uncut_singleton (by omega) hne).append (a := [c]) ?_
    have hheight : height [c] = 1 := by simp [weight, hopen]
    rw [hheight, Int.add_assoc]
    exact ih h
  | case3 => cases h
  | case4 d c cs hopen hclose hd ih =>
    refine (uncut_singleton (by omega) hne).append (a := [c]) ?_
    have hheight : height [c] = -1 := by simp [weight, hopen, hclose]
    rw [hheight, show k + d + -1 = k + (d - 1 : Nat) by omega]
    exact ih h
  | case5 d c cs hopen hclose ih =>
    refine (uncut_singleton (by omega) hne).append (a := [c]) ?_
    have hheight : height [c] = 0 := by simp [weight, hopen, hclose]
    rw [hheight, Int.add_zero]
    exact ih h

/-- A balanced text in brackets has no cuts. -/
theorem Balanced.uncut_enclosed {cs : List Char} (h : Balanced cs) {o c : Char}
    (ho : isOpening o = true) (hsep : separator.head? ≠ some o) (hne : separator ≠ []) :
    Uncut separator 0 (o :: (cs ++ [c])) := by
  have hheight : height [o] = 1 := by simp [weight, ho]
  refine (uncut_singleton (fun _ => hsep) hne).append (a := [o]) ?_
  rw [hheight]
  refine Uncut.append (uncut_of_openAfter? hne h Int.one_pos) ?_
  refine uncut_singleton (fun hdepth => ?_) hne
  rw [h.height_eq_zero] at hdepth
  cases hdepth

/-- A text of characters with which no separator begins has no cuts. -/
theorem uncut_of_forall {cs : List Char} (hne : separator ≠ [])
    (h : ∀ c ∈ cs, separator.head? ≠ some c) : Uncut separator depth cs := by
  induction cs generalizing depth with
  | nil => exact uncut_nil
  | cons c cs ih =>
    obtain ⟨hc, hcs⟩ := List.forall_mem_cons.1 h
    exact (uncut_singleton (fun _ => hc) hne).append (a := [c]) (ih hcs)

/-- A text without the first character of the separator is not cut. -/
theorem uncut_of_notMem {s : Char} {more cs : List Char} (h : s ∉ cs) :
    Uncut (s :: more) depth cs := by
  refine uncut_of_forall (List.cons_ne_nil _ _) fun c hc heq => ?_
  rw [Option.some.inj heq] at h
  exact h hc

/-- A text without cuts is a part of its own. -/
theorem Uncut.split_eq {cs : List Char} (h : Uncut separator 0 cs) : split separator cs = [cs] := by
  obtain ⟨first, others, hfirst, hsplit⟩ := h []
  obtain ⟨rfl, rfl⟩ := List.cons.inj hfirst
  rw [split]
  simpa using hsplit

/-- A text without cuts that closes as many brackets as it opens is the first part of a text in
which a separator follows it. -/
theorem split_append {cs : List Char} (h : Uncut separator 0 cs) (hheight : height cs = 0)
    (hne : separator ≠ []) (rest : List Char) :
    split separator (cs ++ (separator ++ rest)) = cs :: split separator rest := by
  obtain ⟨first, others, hfirst, hsplit⟩ := h (separator ++ rest)
  obtain ⟨s, sep, rfl⟩ := List.exists_cons_of_ne_nil hne
  have hcut : ((s :: sep).isPrefixOf (s :: (sep ++ rest))) = true :=
    List.isPrefixOf_iff_prefix.2 (List.prefix_append (s :: sep) rest)
  rw [hheight, Int.add_zero, List.cons_append, splitFrom, if_pos ⟨rfl, hcut⟩, splitFrom_skip,
    List.length_cons, Nat.add_sub_cancel, List.drop_left] at hfirst
  obtain ⟨rfl, rfl⟩ := List.cons.inj hfirst
  rw [split, hsplit, List.append_nil]
  rfl

/-- Parts without cuts that close as many brackets as they open are the parts of the text that a
separator between them makes. -/
theorem split_intercalate {parts : List (List Char)} (hne : separator ≠ []) (hparts : parts ≠ [])
    (h : ∀ p ∈ parts, Uncut separator 0 p ∧ height p = 0) :
    split separator (separator.intercalate parts) = parts := by
  induction parts with
  | nil => exact absurd rfl hparts
  | cons p parts ih =>
    obtain ⟨⟨hp, hheight⟩, hrest⟩ := List.forall_mem_cons.1 h
    cases parts with
    | nil => rw [List.intercalate_singleton, hp.split_eq]
    | cons q parts =>
      rw [List.intercalate_cons_cons, List.append_assoc, split_append hp hheight hne,
        ih (List.cons_ne_nil q parts) hrest]

end

/-- With a separator of one character a text that is a part of its own has no cuts. -/
theorem uncut_of_split_eq {s : Char} {depth : Int} {cs : List Char}
    (h : splitFrom [s] 0 depth cs = [cs]) : Uncut [s] depth cs := by
  induction cs generalizing depth with
  | nil => exact uncut_nil
  | cons c cs ih =>
    rw [splitFrom] at h
    split at h
    · cases (List.cons.inj h).1
    · rename_i hcut
      have hc : depth = 0 → [s].head? ≠ some c := by
        rintro hdepth hs
        obtain rfl := Option.some.inj hs
        exact hcut ⟨hdepth, by simp⟩
      refine (uncut_singleton hc (List.cons_ne_nil s [])).append (a := [c]) (ih ?_)
      obtain ⟨first, others, hrest⟩ := List.exists_cons_of_ne_nil
        (splitFrom_ne_nil [s] 0 (depth + weight c) cs)
      rw [hrest, Text.consFirst] at h
      obtain ⟨hfirst, rfl⟩ := List.cons.inj h
      rw [height_cons, height_nil, Int.add_zero, hrest, (List.cons.inj hfirst).2]

/-- The parts of a balanced text are balanced. -/
theorem balanced_of_mem_split {s : Char} (hopen : isOpening s = false)
    (hclose : isClosing s = false) {cs p : List Char} (h : Balanced cs)
    (hp : p ∈ split [s] cs) : Balanced p := by
  -- stated for every depth, so that the induction can pass brackets: the first part closes what is
  -- open, the others are balanced on their own
  suffices hparts : ∀ (cs : List Char) (depth : Nat) (first : List Char) (others),
      openAfter? depth cs = some 0 → splitFrom [s] 0 depth cs = first :: others →
        openAfter? depth first = some 0 ∧ ∀ p ∈ others, Balanced p by
    obtain ⟨first, others, hsplit⟩ := List.exists_cons_of_ne_nil (splitFrom_ne_nil [s] 0 0 cs)
    obtain ⟨hfirst, hothers⟩ := hparts cs 0 first others h hsplit
    rw [split, hsplit] at hp
    obtain rfl | hp := List.mem_cons.1 hp
    · exact hfirst
    · exact hothers p hp
  intro cs
  induction cs with
  | nil =>
    intro depth first others hdepth hsplit
    obtain ⟨rfl, rfl⟩ := List.cons.inj hsplit
    exact ⟨hdepth, nofun⟩
  | cons c cs ih =>
    intro depth first others hdepth hsplit
    rw [splitFrom] at hsplit
    split at hsplit
    · rename_i hcut
      obtain ⟨rfl, rfl⟩ := List.cons.inj hsplit
      obtain rfl := (List.cons_prefix_cons.1 (List.isPrefixOf_iff_prefix.1 hcut.2)).1
      obtain rfl : depth = 0 := by omega
      rw [openAfter?, if_neg (by simp [hopen]), if_neg (by simp [hclose])] at hdepth
      obtain ⟨first, others, hrest⟩ := List.exists_cons_of_ne_nil (splitFrom_ne_nil [s] 0 0 cs)
      refine ⟨rfl, ?_⟩
      rw [List.length_singleton, Nat.sub_self, hrest]
      exact List.forall_mem_cons.2 (ih 0 first others hdepth hrest)
    · obtain ⟨rest, others', hrest⟩ := List.exists_cons_of_ne_nil
        (splitFrom_ne_nil [s] 0 (depth + weight c) cs)
      rw [hrest, Text.consFirst] at hsplit
      obtain ⟨rfl, rfl⟩ := List.cons.inj hsplit
      rw [openAfter?] at hdepth ⊢
      rw [weight] at hrest
      split_ifs at hdepth hrest ⊢ with ho hc hzero
      · exact ih (depth + 1) rest others' hdepth hrest
      · have hcast : ((depth - 1 : Nat) : Int) = depth + -1 := by omega
        exact ih (depth - 1) rest others' hdepth (by rwa [hcast])
      · exact ih depth rest others' hdepth (by rwa [Int.add_zero] at hrest)

/-- After a balanced beginning the rest of a balanced text is balanced. -/
theorem Balanced.of_append {a b : List Char} (h : Balanced (a ++ b)) (ha : Balanced a) :
    Balanced b := by
  rwa [Balanced, openAfter?_append, ha] at h

end NoteCheck.Signature.TopLevel
