/-
# Places in a text

A text is taken apart into pieces, each at a place of its own, and fillers between them: blanks,
comments, line breaks and joints of lines. The main statements: `Position.start_advance`, lines and
columns of a place are counted in the text before it, and `Laid.pairwise`, pieces follow each other
without overlap.
-/
import NoteCheck.Code.Layout
import Mathlib.Data.List.DropRight
import Mathlib.Tactic.Common

namespace NoteCheck.Code

/-! ## Lines and columns -/

/-- The number of bytes of the encoding of a text. -/
def byteLength : List Char → Nat
  | [] => 0
  | c :: text => c.utf8Size + byteLength text

@[simp] theorem byteLength_nil : byteLength [] = 0 := rfl

@[simp] theorem byteLength_cons (c : Char) (text : List Char) :
    byteLength (c :: text) = c.utf8Size + byteLength text := rfl

@[simp] theorem byteLength_append (a b : List Char) :
    byteLength (a ++ b) = byteLength a + byteLength b := by
  induction a with
  | nil => rw [List.nil_append, byteLength_nil, Nat.zero_add]
  | cons c a ih => rw [List.cons_append, byteLength_cons, byteLength_cons, ih, Nat.add_assoc]

theorem byteLength_pos {text : List Char} (h : text ≠ []) : 0 < byteLength text := by
  obtain ⟨c, rest, rfl⟩ := List.exists_cons_of_ne_nil h
  rw [byteLength_cons]
  have := Char.utf8Size_pos c
  omega

namespace Position

/-- The place after a text, counted in the text: a line more than it has line breaks, and a column
more than it has bytes after the last of them. -/
def after (text : List Char) : Position :=
  ⟨1 + text.count '\n', 1 + byteLength (text.rtakeWhile (· != '\n'))⟩

/-- Reading on from the beginning character by character leads to the place that is counted. -/
theorem start_advance (text : List Char) : start.advance text = after text := by
  induction text using List.reverseRecOn with
  | nil => rfl
  | append_singleton text c ih =>
    rw [advance_append, ih, advance_cons, advance_nil, next, after, after, List.count_append]
    split_ifs with hc
    · subst hc
      rw [List.rtakeWhile_concat_neg _ _ _ (by simp)]
      rfl
    · rw [List.rtakeWhile_concat_pos _ _ _ (by simpa using hc), byteLength_append, byteLength_cons,
        byteLength_nil, List.count_singleton, if_neg (by simpa using hc), Nat.add_zero,
        Nat.add_zero, Nat.add_assoc]

end Position

/-! ## Fillers -/

/-- A text of blanks, line breaks, comments and joints of lines, before another text. A comment
goes on to the end of its line. -/
inductive Filler (after : List Char) : List Char → Prop
  | nil : Filler after []
  | blank {c rest} : Gap.isBlank c = true → Filler after rest → Filler after (c :: rest)
  | lineBreak {rest} : Filler after rest → Filler after ('\n' :: rest)
  | joint {lineBreak rest} : lineBreak = ['\n'] ∨ lineBreak = ['\r', '\n'] →
      Filler after rest → Filler after ('\\' :: (lineBreak ++ rest))
  | comment {text rest} : (∀ c ∈ text, c ≠ '\n') → (∀ c ∈ (rest ++ after).head?, c = '\n') →
      Filler after rest → Filler after ('#' :: (text ++ rest))

theorem Filler.append {a b after : List Char} (ha : Filler (b ++ after) a) (hb : Filler after b) :
    Filler after (a ++ b) := by
  induction ha with
  | nil => exact hb
  | blank hc _ ih => exact .blank hc ih
  | lineBreak _ ih => exact .lineBreak ih
  | joint hbreak _ ih =>
    rw [List.cons_append, List.append_assoc]
    exact .joint hbreak ih
  | comment htext hend _ ih =>
    rw [List.cons_append, List.append_assoc]
    exact .comment htext (by rwa [List.append_assoc]) ih

theorem filler_of_isBlank {after text : List Char} (h : ∀ c ∈ text, Gap.isBlank c = true) :
    Filler after text := by
  induction text with
  | nil => exact .nil
  | cons c rest ih =>
    obtain ⟨hc, hrest⟩ := List.forall_mem_cons.1 h
    exact .blank hc (ih hrest)

/-! ## Pieces in their places -/

/-- A piece of a text, and all of the text before it. -/
structure Place where
  before : List Char
  piece : List Char

namespace Place

/-- The first byte of the piece. -/
def start (p : Place) : Nat := byteLength p.before

/-- The byte after the piece. -/
def stop (p : Place) : Nat := byteLength p.before + byteLength p.piece

end Place

/-- A text, after one text and before another, is made of the pieces in the places and of fillers
between them. -/
inductive Laid (after : List Char) : List Char → List Place → List Char → Prop
  | filler {before text} : Filler after text → Laid after before [] text
  | piece {before gap piece places rest} : Filler (piece ++ (rest ++ after)) gap → piece ≠ [] →
      Laid after (before ++ (gap ++ piece)) places rest →
      Laid after before (⟨before ++ gap, piece⟩ :: places) (gap ++ (piece ++ rest))

namespace Laid

variable {before a b text after : List Char} {places others : List Place}

/-- A filler before a text that is laid out belongs to it. -/
theorem filler_append (ha : Filler (b ++ after) a) (hb : Laid after (before ++ a) places b) :
    Laid after before places (a ++ b) := by
  cases hb with
  | filler hb => exact .filler (ha.append hb)
  | @piece _ gap piece places rest hgap hne hrest =>
    have hfiller : Filler (piece ++ (rest ++ after)) (a ++ gap) :=
      Filler.append (by simpa only [List.append_assoc] using ha) hgap
    rw [← List.append_assoc, List.append_assoc before]
    exact .piece hfiller hne (by simpa only [List.append_assoc] using hrest)

/-- Texts that are laid out one after the other are laid out together. -/
theorem append (ha : Laid (b ++ after) before places a)
    (hb : Laid after (before ++ a) others b) : Laid after before (places ++ others) (a ++ b) := by
  induction ha with
  | filler ha => exact filler_append ha hb
  | piece hgap hne _ ih =>
    rw [List.cons_append, List.append_assoc, List.append_assoc]
    exact .piece (by rwa [List.append_assoc]) hne (ih (by simpa only [List.append_assoc] using hb))

theorem single {piece : List Char} (hne : piece ≠ []) :
    Laid after before [⟨before, piece⟩] piece := by
  have hgap : Filler (piece ++ ([] ++ after)) [] := .nil
  have hpiece : Laid after before [⟨before ++ [], piece⟩] ([] ++ (piece ++ [])) :=
    .piece hgap hne (.filler .nil)
  rwa [List.append_nil, List.nil_append, List.append_nil] at hpiece

/-- Each piece has a byte, and stands in the text at its place. -/
theorem of_mem (h : Laid after before places text) : ∀ p ∈ places,
    byteLength before ≤ p.start ∧ p.start < p.stop ∧
      ∃ rest, before ++ text = p.before ++ (p.piece ++ rest) := by
  induction h with
  | filler => exact nofun
  | @piece before gap piece places rest _ hne _ ih =>
    refine List.forall_mem_cons.2 ⟨⟨?_, ?_, rest, by simp only [List.append_assoc]⟩, ?_⟩
    · rw [Place.start, byteLength_append]
      exact Nat.le_add_right _ _
    · rw [Place.start, Place.stop]
      exact Nat.lt_add_of_pos_right (byteLength_pos hne)
    · intro p hp
      obtain ⟨hle, hlt, rest', heq⟩ := ih p hp
      rw [byteLength_append] at hle
      exact ⟨Nat.le_trans (Nat.le_add_right _ _) hle, hlt, rest', by
        rw [← heq]
        simp only [List.append_assoc]⟩

/-- Each piece begins where the one before it has ended, or further on. -/
theorem pairwise (h : Laid after before places text) :
    places.Pairwise fun p q => p.stop ≤ q.start := by
  induction h with
  | filler => exact .nil
  | piece _ _ hrest ih =>
    refine .cons (fun q hq => ?_) ih
    have hle := (hrest.of_mem q hq).1
    rwa [← List.append_assoc, byteLength_append] at hle

end Laid

end NoteCheck.Code
