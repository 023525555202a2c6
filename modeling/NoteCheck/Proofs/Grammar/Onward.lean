/-
# Reading moves on

Reading takes tokens one by one and puts none back. The main statements, `ReadsExpr.onward` and
`ReadsStmt.onward`: what is left of a stream is reached by taking tokens. So it is the end of the
tokens that were there, and what holds of all tokens, or of any two in a row, holds of it as well.
-/
import NoteCheck.Proofs.Grammar.StmtSound

namespace NoteCheck.Code

open Parse

namespace TokenStream

/-- The rest of a stream has its last tokens. -/
theorem tokens_tail_suffix (s : TokenStream) : s.tail.tokens <:+ s.tokens := by
  unfold tail
  split
  · exact List.suffix_rfl
  · exact List.suffix_rfl
  · rename_i next ahead hahead _
    rw [tokens, tokens, hahead]
    exact List.suffix_cons ..

/-- A stream after some tokens. -/
inductive Onward : TokenStream → TokenStream → Prop
  | refl {s} : Onward s s
  | tail {s t} : Onward s.tail t → Onward s t

variable {s t u : TokenStream}

namespace Onward

/-- A stream further on leads to those further on. -/
theorem trans (h : Onward s t) (h' : Onward t u) : Onward s u := by
  induction h with
  | refl => exact h'
  | tail _ ih => exact .tail (ih h')

/-- The rest of a stream is further on. -/
theorem single : Onward s s.tail := .tail .refl

/-- After reading on, one token more may be taken. -/
theorem next (h : Onward s t) : Onward s t.tail := h.trans single

/-- Skipping a token of some kind is reading on. -/
theorem skip (kind : TokenKind) : Onward s (s.skip kind) := by
  rw [TokenStream.skip]
  split
  · exact single
  · exact refl

/-- What is left ends the tokens that were there. -/
theorem suffix (h : Onward s t) : t.tokens <:+ s.tokens := by
  induction h with
  | refl => exact List.suffix_rfl
  | tail _ ih => exact ih.trans (tokens_tail_suffix _)

end Onward

end TokenStream

open TokenStream

variable {s t : TokenStream}

/-- Reading a part of an expression moves on. -/
theorem ReadsExpr.onward {phrase : Phrase ExprPart} (h : ReadsExpr s phrase t) : s.Onward t := by
  induction h
  all_goals grind [Onward.refl, Onward.tail, Onward.trans, Onward.next, Onward.skip]

/-! ## Passing over tokens -/

namespace Parse

/-- A loop moves on if each of its rounds does. -/
theorem onward_of_loop {α β : Type} {round : α → Parse (α ⊕ β)}
    (hround : ∀ {a s r t}, round a s = .ok (r, t) → s.Onward t) {a : α} {b : β}
    (h : loop round a s = .ok (b, t)) : s.Onward t := by
  refine loop_induction (P := fun _ s _ t => s.Onward t) ?_ ?_ h
  · intro a s b t hlast
    exact hround hlast
  · intro a s a' t b u hnext ih
    exact (hround hnext).trans ih

/-- Skipping to a token reads on. -/
theorem skipUntil_onward {stop : TokenKind → Bool} {u : Unit} (h : skipUntil stop s = .ok (u, t)) :
    s.Onward t := by
  refine onward_of_loop (fun {_ s r t} hround => ?_) h
  rw [kind_bind, ite_eq_ok, pure_eq_ok, advance_bind, pure_eq_ok] at hround
  obtain ⟨-, -, rfl⟩ | ⟨-, -, rfl⟩ := hround
  · exact .refl
  · exact .single

/-- A loop takes a token if each of its rounds does. -/
theorem takes_of_loop {α β : Type} {round : α → Parse (α ⊕ β)}
    (hround : ∀ {a s r t}, round a s = .ok (r, t) → s.tail.Onward t) {a : α} {b : β}
    (h : loop round a s = .ok (b, t)) : s.tail.Onward t := by
  refine loop_induction (P := fun _ s _ t => s.tail.Onward t) ?_ ?_ h
  · intro a s b t hlast
    exact hround hlast
  · intro a s a' t b u hnext ih
    exact (hround hnext).trans (.tail ih)

/-- Skipping the head of a statement takes its first token. -/
theorem skipHead_takes {u : Unit} (h : skipHead s = .ok (u, t)) : s.tail.Onward t := by
  refine takes_of_loop (fun {depth s r t} hround => ?_) h
  rw [kind_bind] at hround
  generalize s.kind = kind at hround
  split at hround
  · exact absurd hround unexpected_ne_ok
  · exact absurd hround unexpected_ne_ok
  · rw [advance_bind, ite_eq_ok, pure_eq_ok, pure_eq_ok] at hround
    obtain ⟨-, -, rfl⟩ | ⟨-, -, rfl⟩ := hround
    · exact .refl
    · exact .refl

/-- Skipping a block reads on. -/
theorem skipBlock_onward {u : Unit} (h : skipBlock s = .ok (u, t)) : s.Onward t := by
  refine onward_of_loop (fun {depth s r t} hround => ?_) h
  rw [kind_bind, ite_eq_ok, advance_bind] at hround
  obtain ⟨-, hround⟩ | ⟨-, hround⟩ := hround
  · exact absurd hround unexpected_ne_ok
  · generalize s.kind = kind at hround
    split at hround
    all_goals
      obtain ⟨-, rfl⟩ := pure_eq_ok.1 hround
      exact .single

/-- Skipping a clause takes its first token. -/
theorem skipClause_takes {u : Unit} (h : skipClause s = .ok (u, t)) : s.tail.Onward t := by
  obtain ⟨_, v, hhead, h⟩ := bind_eq_ok.1 h
  refine (skipHead_takes hhead).trans ?_
  obtain ⟨-, h⟩ | ⟨-, h⟩ := skip?_bind_eq_ok.1 h
  · rw [if_pos rfl, expect_bind_eq_ok] at h
    exact .tail (.tail (skipBlock_onward h.2))
  · rw [if_neg Bool.false_ne_true] at h
    obtain ⟨_, w, hrest, h⟩ := bind_eq_ok.1 h
    refine (skipUntil_onward hrest).trans ?_
    obtain ⟨-, h⟩ | ⟨-, h⟩ := skip?_bind_eq_ok.1 h
    · obtain ⟨-, rfl⟩ := pure_eq_ok.1 h
      exact .single
    · obtain ⟨-, rfl⟩ := pure_eq_ok.1 h
      exact .refl

/-- Passing over a statement with a block takes a token. -/
theorem skipClauses_takes {u : Unit} (h : skipClauses s = .ok (u, t)) : s.tail.Onward t := by
  obtain ⟨_, v, hfirst, h⟩ := bind_eq_ok.1 h
  refine (skipClause_takes hfirst).trans (onward_of_loop (fun {_ s r t} hround => ?_) h)
  rw [kind_bind, ite_eq_ok, bind_eq_ok, pure_eq_ok] at hround
  obtain ⟨-, _, v, hclause, hround⟩ | ⟨-, -, rfl⟩ := hround
  · obtain ⟨-, rfl⟩ := pure_eq_ok.1 hround
    exact .tail (skipClause_takes hclause)
  · exact .refl

end Parse

/-- Reading a part of a statement moves on. -/
theorem ReadsStmt.onward {phrase : Phrase StmtPart} (h : ReadsStmt s phrase t) : s.Onward t := by
  induction h
  all_goals grind [Onward.refl, Onward.tail, Onward.trans, Onward.next, Onward.skip,
    → ReadsExpr.onward, → skipUntil_onward, → skipClauses_takes]

end NoteCheck.Code
