/-
# Readings that come to a result

The other direction of what a reading that succeeds has done: from what its steps come to, what a
reading comes to. A loop comes to its result when each round before the last one takes a token. An
expression that has been read up to a place can be carried on from there (`Leads`), which is how a
chain of operators is read: each operator takes what stands before it as its left operand.
-/
import NoteCheck.Code.Grammar.Expr
import NoteCheck.Proofs.Grammar.Steps

namespace NoteCheck.Code

namespace Parse

variable {α β : Type}

/-! ## Loops -/

/-- The rounds of a loop up to its result. Each round before the last one takes a token. -/
inductive Runs (round : α → Parse (α ⊕ β)) : α → TokenStream → β → TokenStream → Prop
  | last {a s b t} : round a s = .ok (.inr b, t) → Runs round a s b t
  | next {a s c t b u} : round a s = .ok (.inl c, t) → t.fuel < s.fuel →
      Runs round c t b u → Runs round a s b u

/-- The bound on the rounds of a loop is not reached. -/
theorem Runs.loop_eq_ok {round : α → Parse (α ⊕ β)} {a : α} {s t : TokenStream} {b : β}
    (h : Runs round a s b t) : loop round a s = .ok (b, t) := by
  have hrounds : ∀ n, s.fuel ≤ n → rounds (throw .exhausted) round n a s = .ok (b, t) := by
    induction h with
    | @last a s b t hround =>
      intro n hn
      obtain ⟨n, rfl⟩ : ∃ m, n = m + 1 := ⟨n - 1, by rw [TokenStream.fuel] at hn; omega⟩
      rw [rounds, bind_eq_ok]
      exact ⟨_, _, hround, rfl⟩
    | @next a s c t b u hround hfuel _ ih =>
      intro n hn
      obtain ⟨n, rfl⟩ : ∃ m, n = m + 1 := ⟨n - 1, by rw [TokenStream.fuel] at hn; omega⟩
      rw [rounds, bind_eq_ok]
      exact ⟨_, _, hround, ih n (by omega)⟩
  exact hrounds s.fuel (Nat.le_refl _)

/-- A round in which an item is read, if one can begin. -/
def itemRound (more : TokenStream → Bool) (item : Parse α) (found : List α) :
    Parse (List α ⊕ List α) := do
  if more (← get) then return .inl (found ++ [← item]) else return .inr found

section ItemRounds

variable {more : TokenStream → Bool} {item : Parse α} {s t u : TokenStream} {a : α}
  {found all : List α}

/-- A loop goes on with one item more. -/
theorem itemRound_of_more (hmore : more s = true) (hitem : item s = .ok (a, t)) :
    itemRound more item found s = .ok (.inl (found ++ [a]), t) := by
  rw [itemRound, get_bind, if_pos hmore]
  exact bind_eq_ok.2 ⟨a, t, hitem, rfl⟩

/-- A loop that is over gives what has been found. -/
theorem itemRound_of_done (hmore : more s = false) :
    itemRound more item found s = .ok (.inr found, s) := by
  rw [itemRound, get_bind, hmore]
  rfl

/-- The bound on the rounds may be larger, and items may have been found before. -/
theorem rounds_itemRound {n : Nat}
    (h : rounds (throw .exhausted) (itemRound more item) n found s = .ok (all, u))
    (before : List α) {m : Nat} (hm : n ≤ m) :
    rounds (throw .exhausted) (itemRound more item) m (before ++ found) s =
      .ok (before ++ all, u) := by
  induction n generalizing found s m with
  | zero => exact absurd h throw_ne_ok
  | succ n ih =>
    obtain ⟨m, rfl⟩ : ∃ k, m = k + 1 := ⟨m - 1, by omega⟩
    obtain ⟨next, v, hround, h⟩ := bind_eq_ok.1 h
    by_cases hmore : more s = true
    · rw [itemRound, get_bind, if_pos hmore] at hround
      obtain ⟨a, w, hitem, hround⟩ := bind_eq_ok.1 hround
      obtain ⟨rfl, rfl⟩ := pure_eq_ok.1 hround
      have hrest := ih h (m := m) (by omega)
      rw [← List.append_assoc] at hrest
      exact bind_eq_ok.2 ⟨_, w, itemRound_of_more hmore hitem, hrest⟩
    · have hdone := Bool.eq_false_iff.2 hmore
      rw [itemRound_of_done hdone] at hround
      obtain ⟨rfl, rfl⟩ := Prod.mk.inj (Except.ok.inj hround)
      obtain ⟨rfl, rfl⟩ := pure_eq_ok.1 h
      exact bind_eq_ok.2 ⟨_, s, itemRound_of_done hdone, rfl⟩

/-- What has been found before the rounds is put before what they find. -/
theorem rounds_itemRound_append (before found : List α) (n : Nat) :
    rounds (throw Halt.exhausted) (itemRound more item) n (before ++ found) =
      (before ++ ·) <$> rounds (throw Halt.exhausted) (itemRound more item) n found := by
  induction n generalizing found with
  | zero => rfl
  | succ n ih =>
    rw [rounds, rounds, map_bind]
    funext s
    rw [itemRound, itemRound, bind_assoc, bind_assoc, get_bind, get_bind]
    by_cases hmore : more s = true
    · rw [if_pos hmore, if_pos hmore]
      simp only [bind_assoc, pure_bind, List.append_assoc, ih]
    · rw [if_neg hmore, if_neg hmore]
      rfl

/-- An item before items that are read. -/
theorem manyWhile_cons (hmore : more s = true) (hitem : item s = .ok (a, t))
    (hfuel : t.fuel < s.fuel) (h : manyWhile more item t = .ok (found, u)) :
    manyWhile more item s = .ok (a :: found, u) := by
  obtain ⟨n, hn⟩ : ∃ n, s.fuel = n + 1 := ⟨s.fuel - 1, by omega⟩
  show rounds (throw .exhausted) (itemRound more item) s.fuel [] s = _
  rw [hn]
  exact bind_eq_ok.2 ⟨_, t, itemRound_of_more hmore hitem, rounds_itemRound h [a] (by omega)⟩

end ItemRounds

/-- Items one after the other, as long as one can begin. -/
inductive Many (more : TokenStream → Bool) (item : Parse α) :
    TokenStream → List α → TokenStream → Prop
  | done {s} : more s = false → Many more item s [] s
  | next {s a t found u} : more s = true → item s = .ok (a, t) → t.fuel < s.fuel →
      Many more item t found u → Many more item s (a :: found) u

/-- The loop finds the items that come one after the other. -/
theorem Many.manyWhile_eq_ok {more : TokenStream → Bool} {item : Parse α} {s t : TokenStream}
    {found : List α} (h : Many more item s found t) : manyWhile more item s = .ok (found, t) := by
  induction h with
  | done hmore => exact Runs.loop_eq_ok (.last (itemRound_of_done hmore))
  | next hmore hitem hfuel _ ih => exact manyWhile_cons hmore hitem hfuel ih

/-- Items after one that has been read, each after a comma, up to a closing token. -/
inductive AfterItem (item : Parse α) (closing : TokenKind) :
    TokenStream → List α → TokenStream → Prop
  | done {s} : s.kind = closing → AfterItem item closing s [] s
  | comma {s} : s.kind = .comma → s.tail.fuel < s.fuel → s.tail.kind = closing →
      AfterItem item closing s [] s.tail
  | next {s a t found u} : s.kind = .comma → s.tail.fuel < s.fuel → s.tail.kind ≠ closing →
      item s.tail = .ok (a, t) → t.fuel < s.tail.fuel → AfterItem item closing t found u →
      AfterItem item closing s (a :: found) u

/-- The loop finds the items between commas. -/
theorem AfterItem.afterCommas_eq_ok {item : Parse α} {closing : TokenKind}
    (hclosing : closing ≠ .comma) {s t : TokenStream} {found : List α}
    (h : AfterItem item closing s found t) :
    afterCommas (· = closing) item s = .ok (found, t) := by
  suffices hruns : ∀ before, Runs (fun found => do
      if !(← skip? .comma) then return .inr found
      else if decide ((← kind) = closing) then return .inr found
      else return .inl (found ++ [← item])) before s (before ++ found) t from
    (hruns []).loop_eq_ok
  induction h with
  | @done s hkind =>
    intro before
    refine .last (skip?_bind_eq_ok.2 (.inr ⟨hkind ▸ hclosing, ?_⟩))
    rw [List.append_nil]
    rfl
  | @comma s hcomma hfuel hkind =>
    intro before
    refine .last (skip?_bind_eq_ok.2 (.inl ⟨hcomma, ?_⟩))
    rw [if_neg (by simp), kind_bind, if_pos (by simpa using hkind), List.append_nil]
    rfl
  | @next s a t found u hcomma hfuel hkind hitem hless _ ih =>
    intro before
    refine .next (c := before ++ [a]) (t := t) (skip?_bind_eq_ok.2 (.inl ⟨hcomma, ?_⟩))
      (by omega) ?_
    · rw [if_neg (by simp), kind_bind, if_neg (by simpa using hkind), bind_eq_ok]
      exact ⟨a, t, hitem, rfl⟩
    · have hruns := ih (before ++ [a])
      rwa [List.append_assoc] at hruns

/-- A first item and the items after it, up to the closing token. -/
theorem AfterItem.untilClosed_eq_ok {item : Parse α} {closing : TokenKind}
    (hclosing : closing ≠ .comma) {s t u : TokenStream} {a : α} {found : List α}
    (hkind : s.kind ≠ closing) (hitem : item s = .ok (a, t)) (hfuel : t.fuel < s.fuel)
    (h : AfterItem item closing t found u) :
    untilClosed closing item s = .ok (a :: found, u) := by
  suffices hruns : ∀ before s a, s.kind ≠ closing → item s = .ok (a, t) → t.fuel < s.fuel →
      Runs (fun found => do
        if (← kind) = closing then return .inr found
        else
          let found := found ++ [← item]
          if ← skip? .comma then return .inl found else return .inr found)
        before s (before ++ a :: found) u from
    (hruns [] s a hkind hitem hfuel).loop_eq_ok
  clear hkind hitem hfuel
  induction h with
  | @done t hclosed =>
    intro before s a hkind hitem hfuel
    refine .last ?_
    rw [kind_bind, if_neg hkind, bind_eq_ok]
    exact ⟨a, t, hitem, skip?_bind_eq_ok.2 (.inr ⟨hclosed ▸ hclosing, rfl⟩)⟩
  | @comma t hcomma hless hclosed =>
    intro before s a hkind hitem hfuel
    refine .next (c := before ++ [a]) (t := t.tail) ?_ (by omega) (.last ?_)
    · rw [kind_bind, if_neg hkind, bind_eq_ok]
      exact ⟨a, t, hitem, skip?_bind_eq_ok.2 (.inl ⟨hcomma, rfl⟩)⟩
    · rw [kind_bind, if_pos hclosed]
      rfl
  | @next t a' v found u hcomma hless hopen hitem' hless' _ ih =>
    intro before s a hkind hitem hfuel
    refine .next (c := before ++ [a]) (t := t.tail) ?_ (by omega) ?_
    · rw [kind_bind, if_neg hkind, bind_eq_ok]
      exact ⟨a, t, hitem, skip?_bind_eq_ok.2 (.inl ⟨hcomma, rfl⟩)⟩
    · have hruns := ih (before ++ [a]) t.tail a' hopen hitem' hless'
      rwa [List.append_assoc] at hruns

/-- Where the closing token stands there are no items. -/
theorem untilClosed_of_closing {item : Parse α} {closing : TokenKind} {s : TokenStream}
    (h : s.kind = closing) : untilClosed closing item s = .ok ([], s) := by
  refine Runs.loop_eq_ok (.last ?_)
  rw [kind_bind, if_pos h]
  rfl

/-! ## Expressions -/

section Rules

variable {expr : BindingPower → Parse Expr} {power : BindingPower}

/-- A round of the loop in which an expression goes on. -/
def goOn (expr : BindingPower → Parse Expr) (power : BindingPower) (left : Expr) :
    Parse (Expr ⊕ Expr) := do
  let kind ← kind
  if power < kind.bindingPower then
    match kind.continuation? with
    | none => unexpected
    | some continuation => return .inl (← continued expr left continuation)
  else return .inr left

/-- An expression begins that is read up to a place as the given one: when it goes on from there to
another one, that is what is read. -/
def Leads (expr : BindingPower → Parse Expr) (power : BindingPower) (s : TokenStream) (e : Expr)
    (t : TokenStream) : Prop :=
  ∀ e' u, Runs (goOn expr power) e t e' u → exprOf expr power s = .ok (e', u)

/-- What a token opens can be gone on with. -/
theorem leads_of_opened {s t : TokenStream} {opening : Opening} {e : Expr}
    (hkind : s.kind.opening? = some opening) (h : opened expr opening s = .ok (e, t)) :
    Leads expr power s e t := by
  intro e' u hruns
  rw [exprOf, kind_bind, hkind]
  exact bind_eq_ok.2 ⟨e, t, h, hruns.loop_eq_ok⟩

/-- An expression goes on with a token that holds it more strongly. -/
theorem Leads.continued {s t u : TokenStream} {left e : Expr} {continuation : Continuation}
    (h : Leads expr power s left t) (hkind : t.kind.continuation? = some continuation)
    (hpower : power < continuation.power)
    (hcontinued : continued expr left continuation t = .ok (e, u)) (hfuel : u.fuel < t.fuel) :
    Leads expr power s e u := by
  intro e' v hruns
  refine h e' v (.next ?_ hfuel hruns)
  have hholds : power < t.kind.bindingPower := by
    rw [TokenKind.bindingPower, hkind]
    exact hpower
  rw [goOn, kind_bind, if_pos hholds, hkind]
  exact bind_eq_ok.2 ⟨e, u, hcontinued, rfl⟩

/-- An expression ends before a token that does not hold it more strongly. -/
theorem Leads.exprOf_eq_ok {s t : TokenStream} {e : Expr} (h : Leads expr power s e t)
    (hpower : ¬power < t.kind.bindingPower) : exprOf expr power s = .ok (e, t) := by
  refine h e t (.last ?_)
  rw [goOn, kind_bind, if_neg hpower]
  rfl

end Rules

/-- An expression that is read begins with a token that opens one. -/
theorem opensExpr_of_exprOf {expr : BindingPower → Parse Expr} {power : BindingPower}
    {s t : TokenStream} {e : Expr} (h : exprOf expr power s = .ok (e, t)) :
    s.kind.opensExpr = true := by
  rw [exprOf, kind_bind] at h
  cases hopening : s.kind.opening? with
  | none =>
    rw [hopening] at h
    exact absurd h unexpected_ne_ok
  | some opening => rw [TokenKind.opensExpr, hopening]; rfl

end Parse

end NoteCheck.Code
