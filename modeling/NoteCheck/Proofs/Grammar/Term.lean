/-
# Terms and their renderings

Terms are the expressions of names, numbers, tuples, operators, conditions, attributes, calls and
subscripts. A rendering of a term is a list of words in which an operand stands in parentheses
where its operator binds too weakly for its place, and may do so anywhere else (`Renders`). Which
expressions show a term, whatever parts of the text they take, is `Term.Shows`.
-/
import NoteCheck.Code.Expr
import NoteCheck.Proofs.Layout.Words

namespace NoteCheck.Code

/-! ## Terms -/

/-- A name that is not reserved. -/
structure NameWord where
  text : String
  isWord : IsWord text .identifier

/-- A number as it is written. -/
structure NumberWord where
  text : String
  isWord : IsWord text .number

/-- An expression without the part of the text that it takes. A boolean operator has at least two
values, and a comparison at least one operator. -/
inductive Term where
  | name (word : NameWord)
  | number (word : NumberWord)
  | tuple (elements : List Term)
  | binary (left : Term) (operator : BinaryOp) (right : Term)
  | unary (operator : UnaryOp) (operand : Term)
  | boolean (operator : BoolOp) (first second : Term) (others : List Term)
  | comparison (left : Term) (operator : CompareOp) (right : Term)
      (others : List (CompareOp × Term))
  | conditional (test body orelse : Term)
  | member (value : Term) (attr : NameWord)
  | call (callee : Term) (arguments : List Term)
  | subscript (value index : Term)

/-- An expression shows a term when it is the same tree, wherever its parts stand in the text. -/
inductive Term.Shows : Term → Expr → Prop
  | name {word span} : Shows (.name word) (.name span word.text)
  | number {word span} : Shows (.number word) (.constant span (.number word.text))
  | tuple {elements span shown} : List.Forall₂ Shows elements shown →
      Shows (.tuple elements) (.tuple span shown)
  | binary {left operator right span l r} : Shows left l → Shows right r →
      Shows (.binary left operator right) (.binary span l operator r)
  | unary {operator operand span e} : Shows operand e →
      Shows (.unary operator operand) (.unary span operator e)
  | boolean {operator first second others span a b shown} : Shows first a → Shows second b →
      List.Forall₂ Shows others shown →
      Shows (.boolean operator first second others) (.boolean span operator (a :: b :: shown))
  | comparison {left operator right others span l r shown} : Shows left l → Shows right r →
      others.map (·.1) = shown.map (·.1) →
      List.Forall₂ Shows (others.map (·.2)) (shown.map (·.2)) →
      Shows (.comparison left operator right others)
        (.comparison span l ((operator, r) :: shown))
  | conditional {test body orelse span t b o} : Shows test t → Shows body b → Shows orelse o →
      Shows (.conditional test body orelse) (.conditional span t b o)
  | member {value attr span e} : Shows value e →
      Shows (.member value attr) (.member span e attr.text)
  | call {callee arguments span e shown} : Shows callee e → List.Forall₂ Shows arguments shown →
      Shows (.call callee arguments) (.call span e shown [])
  | subscript {value index span e i} : Shows value e → Shows index i →
      Shows (.subscript value index) (.subscript span e i)

/-! ## How strongly operators bind -/

/-- How strongly a form of expression holds together, from the weakest form on. -/
inductive Level where
  | conditional | or | and | not | comparison | bitOr | bitXor | bitAnd | shift | sum | product
  | unary | power | primary
  deriving DecidableEq, Repr

namespace Level

/-- The place of a level in the order of strength. -/
def rank : Level → Nat
  | conditional => 0
  | or => 1
  | and => 2
  | not => 3
  | comparison => 4
  | bitOr => 5
  | bitXor => 6
  | bitAnd => 7
  | shift => 8
  | sum => 9
  | product => 10
  | unary => 11
  | power => 12
  | primary => 13

/-- The level after a level; there is none after the last. -/
def next : Level → Level
  | conditional => or
  | or => and
  | and => not
  | not => comparison
  | comparison => bitOr
  | bitOr => bitXor
  | bitXor => bitAnd
  | bitAnd => shift
  | shift => sum
  | sum => product
  | product => unary
  | unary => power
  | power | primary => primary

end Level

namespace BinaryOp

/-- The level of an operator between two operands. -/
def level : BinaryOp → Level
  | .bitOr => .bitOr
  | .bitXor => .bitXor
  | .bitAnd => .bitAnd
  | .shiftLeft | .shiftRight => .shift
  | .add | .sub => .sum
  | .mult | .div | .floorDiv | .mod | .matMult => .product
  | .pow => .power

/-- The level of the operand on the left: operators of one level are grouped from the left, except
for powers. -/
def leftLevel : BinaryOp → Level
  | .pow => .primary
  | operator => operator.level

/-- The level of the operand on the right: an exponent may have a sign, or be a power again. -/
def rightLevel : BinaryOp → Level
  | .pow => .unary
  | operator => operator.level.next

end BinaryOp

namespace UnaryOp

/-- The operator as it is written. -/
def word : UnaryOp → String
  | .not => "not"
  | .negate => "-"
  | .plus => "+"
  | .invert => "~"

/-- The level of an operator before its operand, and of the operand. -/
def level : UnaryOp → Level
  | .not => .not
  | .negate | .plus | .invert => .unary

end UnaryOp

namespace BoolOp

/-- The operator as it is written. -/
def word : BoolOp → String
  | .and => "and"
  | .or => "or"

/-- The level of an operator that joins conditions. -/
def level : BoolOp → Level
  | .and => .and
  | .or => .or

end BoolOp

/-- The operator as it is written, in one word or two. -/
def CompareOp.words : CompareOp → List String
  | .equal => ["=="]
  | .notEqual => ["!="]
  | .less => ["<"]
  | .lessEqual => ["<="]
  | .greater => [">"]
  | .greaterEqual => [">="]
  | .isIn => ["in"]
  | .notIn => ["not", "in"]
  | .is => ["is"]
  | .isNot => ["is", "not"]

namespace Term

/-- The level of the outermost form of a term. -/
def level : Term → Level
  | binary _ operator _ => operator.level
  | unary operator _ => operator.level
  | boolean operator _ _ _ => operator.level
  | comparison .. => .comparison
  | conditional .. => .conditional
  | name _ | number _ | tuple _ | member .. | call .. | subscript .. => .primary

/-- The values of an operator, joined by it. -/
def isJoined (operator : BoolOp) : Term → Bool
  | boolean other _ _ _ => other = operator
  | _ => false

end Term

/-! ## Renderings -/

/-- What a list of words may render. -/
inductive Part where
  /-- A term in a place where its form must hold together as strongly as a level. -/
  | operand (level : Level) (t : Term)
  /-- A term without parentheses around it. -/
  | bare (t : Term)
  /-- Further items of a list, each after a comma. -/
  | items (ts : List Term)
  /-- Further values of a boolean operator, each after the operator. -/
  | values (operator : BoolOp) (ts : List Term)
  /-- Further comparisons of a chain. -/
  | links (ls : List (CompareOp × Term))

/-- The words that render a part. Values that an operator joins are one chain, so the first of them
is not joined by the same operator. -/
inductive Renders : Part → List String → Prop
  | bare {level t ws} : level.rank ≤ t.level.rank → Renders (.bare t) ws →
      Renders (.operand level t) ws
  | grouped {level t ws} : Renders (.operand .conditional t) ws →
      Renders (.operand level t) ("(" :: ws ++ [")"])
  | name {word} : Renders (.bare (.name word)) [word.text]
  | number {word} : Renders (.bare (.number word)) [word.text]
  | emptyTuple : Renders (.bare (.tuple [])) ["(", ")"]
  /-- A comma makes a tuple, also after a single element. -/
  | tuple {first others ws vs} : Renders (.operand .conditional first) ws →
      Renders (.items others) vs → vs ≠ [] →
      Renders (.bare (.tuple (first :: others))) ("(" :: ws ++ vs ++ [")"])
  | noItems : Renders (.items []) []
  | comma : Renders (.items []) [","]
  | item {t ts ws vs} : Renders (.operand .conditional t) ws → Renders (.items ts) vs →
      Renders (.items (t :: ts)) ("," :: ws ++ vs)
  | binary {left operator right ws vs} : Renders (.operand operator.leftLevel left) ws →
      Renders (.operand operator.rightLevel right) vs →
      Renders (.bare (.binary left operator right)) (ws ++ operator.symbol :: vs)
  | unary {operator operand ws} : Renders (.operand operator.level operand) ws →
      Renders (.bare (.unary operator operand)) (operator.word :: ws)
  | boolean {operator first second others us vs ws} : first.isJoined operator = false →
      Renders (.operand operator.level.next first) us →
      Renders (.operand operator.level.next second) vs → Renders (.values operator others) ws →
      Renders (.bare (.boolean operator first second others)) (us ++ operator.word :: vs ++ ws)
  | noValues {operator} : Renders (.values operator []) []
  | value {operator t ts ws vs} : Renders (.operand operator.level.next t) ws →
      Renders (.values operator ts) vs →
      Renders (.values operator (t :: ts)) (operator.word :: ws ++ vs)
  | comparison {left operator right others us vs ws} :
      Renders (.operand Level.comparison.next left) us →
      Renders (.operand Level.comparison.next right) vs → Renders (.links others) ws →
      Renders (.bare (.comparison left operator right others)) (us ++ operator.words ++ vs ++ ws)
  | noLinks : Renders (.links []) []
  | link {operator t ls ws vs} : Renders (.operand Level.comparison.next t) ws →
      Renders (.links ls) vs → Renders (.links ((operator, t) :: ls)) (operator.words ++ ws ++ vs)
  | conditional {test body orelse us vs ws} : Renders (.operand .or body) us →
      Renders (.operand .or test) vs → Renders (.operand .conditional orelse) ws →
      Renders (.bare (.conditional test body orelse)) (us ++ "if" :: vs ++ "else" :: ws)
  | member {value attr ws} : Renders (.operand .primary value) ws →
      Renders (.bare (.member value attr)) (ws ++ [".", attr.text])
  | emptyCall {callee ws} : Renders (.operand .primary callee) ws →
      Renders (.bare (.call callee [])) (ws ++ ["(", ")"])
  | call {callee first others us ws vs} : Renders (.operand .primary callee) us →
      Renders (.operand .conditional first) ws → Renders (.items others) vs →
      Renders (.bare (.call callee (first :: others))) (us ++ "(" :: ws ++ vs ++ [")"])
  | subscript {value index us ws} : Renders (.operand .primary value) us →
      Renders (.operand .conditional index) ws →
      Renders (.bare (.subscript value index)) (us ++ "[" :: ws ++ ["]"])

/-! ## The words of renderings -/

/-- A word that is not the mark of an assignment. -/
def IsTermWord (word : String) : Prop := ∃ kind, IsWord word kind ∧ kind ≠ .assign

/-- Every mark but that of an assignment and every reserved word is a word of terms. -/
theorem isTermWord_of_lookup {word : String} {kind : TokenKind}
    (h : (TokenKind.marks ++ TokenKind.reservedWords).lookup word = some kind)
    (hkind : kind ≠ .assign) : IsTermWord word :=
  ⟨kind, isWord_of_lookup h, hkind⟩

/-- A name is a word of terms. -/
theorem NameWord.isTermWord (word : NameWord) : IsTermWord word.text :=
  ⟨_, word.isWord, by decide⟩

/-- A number is a word of terms. -/
theorem NumberWord.isTermWord (word : NumberWord) : IsTermWord word.text :=
  ⟨_, word.isWord, by decide⟩

/-- The mark of an operator between two operands is a word of terms. -/
theorem BinaryOp.isTermWord (operator : BinaryOp) : IsTermWord operator.symbol := by
  cases operator <;> exact isTermWord_of_lookup rfl (by decide)

/-- The word of an operator before an operand is a word of terms. -/
theorem UnaryOp.isTermWord (operator : UnaryOp) : IsTermWord operator.word := by
  cases operator <;> exact isTermWord_of_lookup rfl (by decide)

/-- The word of a boolean operator is a word of terms. -/
theorem BoolOp.isTermWord (operator : BoolOp) : IsTermWord operator.word := by
  cases operator <;> exact isTermWord_of_lookup rfl (by decide)

/-- The words of an operator that compares are words of terms. -/
theorem CompareOp.isTermWord (operator : CompareOp) : ∀ w ∈ operator.words, IsTermWord w := by
  cases operator with
  | notIn | isNot =>
    refine List.forall_mem_cons.2 ⟨isTermWord_of_lookup rfl (by decide), ?_⟩
    exact List.forall_mem_singleton.2 (isTermWord_of_lookup rfl (by decide))
  | _ => exact List.forall_mem_singleton.2 (isTermWord_of_lookup rfl (by decide))

/-- The words of a rendering are words of terms. -/
theorem Renders.isTermWord {part : Part} {ws : List String} (h : Renders part ws) :
    ∀ w ∈ ws, IsTermWord w := by
  have hparens : IsTermWord "(" ∧ IsTermWord ")" :=
    ⟨isTermWord_of_lookup rfl (by decide), isTermWord_of_lookup rfl (by decide)⟩
  have hbrackets : IsTermWord "[" ∧ IsTermWord "]" :=
    ⟨isTermWord_of_lookup rfl (by decide), isTermWord_of_lookup rfl (by decide)⟩
  have hmarks : IsTermWord "," ∧ IsTermWord "." :=
    ⟨isTermWord_of_lookup rfl (by decide), isTermWord_of_lookup rfl (by decide)⟩
  have hcondition : IsTermWord "if" ∧ IsTermWord "else" :=
    ⟨isTermWord_of_lookup rfl (by decide), isTermWord_of_lookup rfl (by decide)⟩
  induction h with
  | bare _ _ ih => exact ih
  | noItems | noValues | noLinks => exact List.forall_mem_nil _
  | @comparison _ operator _ _ _ _ _ _ _ _ ihleft ihright ihothers =>
    simp only [List.forall_mem_append]
    exact ⟨⟨⟨ihleft, operator.isTermWord⟩, ihright⟩, ihothers⟩
  | @link operator _ _ _ _ _ _ ih ihlinks =>
    simp only [List.forall_mem_append]
    exact ⟨⟨operator.isTermWord, ih⟩, ihlinks⟩
  | _ =>
    simp only [List.forall_mem_append, List.forall_mem_cons]
    simp_all [NameWord.isTermWord, NumberWord.isTermWord, BinaryOp.isTermWord, UnaryOp.isTermWord,
      BoolOp.isTermWord]

/-- A text that begins with a word other than `not`. -/
def BeginsFree (ws : List String) : Prop := ∃ w rest, ws = w :: rest ∧ ¬IsWord w .kwNot

/-- Words that do not begin with `not` do not begin with it when more follow. -/
theorem BeginsFree.append {ws : List String} (h : BeginsFree ws) (vs : List String) :
    BeginsFree (ws ++ vs) := by
  obtain ⟨w, rest, rfl, hw⟩ := h
  exact ⟨w, rest ++ vs, rfl, hw⟩

/-- A word of another kind than `not` does not begin with it. -/
theorem beginsFree_of_isWord {w : String} {kind : TokenKind} (h : IsWord w kind)
    (hkind : kind ≠ .kwNot) (rest : List String) : BeginsFree (w :: rest) :=
  ⟨w, rest, rfl, fun hnot => hkind (h.unique hnot)⟩

/-- A part in a place for the operands of a comparison. -/
def Part.IsTight : Part → Prop
  | operand level _ => Level.comparison.rank < level.rank
  | bare t => Level.comparison.rank < t.level.rank
  | _ => False

/-- An operand of a comparison does not begin with `not`, which would be taken as a part of the
operator before it. -/
theorem Renders.beginsFree {part : Part} {ws : List String} (h : Renders part ws)
    (hpart : part.IsTight) : BeginsFree ws := by
  have hparens : IsWord "(" .openParen := isWord_of_lookup rfl
  have hprimary : Level.comparison.rank < Level.primary.rank := by decide
  induction h with
  | bare hlevel _ ih => exact ih (Nat.lt_of_lt_of_le hpart hlevel)
  | grouped | emptyTuple | tuple => exact beginsFree_of_isWord hparens (by decide) _
  | @name word => exact beginsFree_of_isWord word.isWord (by decide) []
  | @number word => exact beginsFree_of_isWord word.isWord (by decide) []
  | @binary _ operator _ _ _ _ _ ihleft =>
    have hlevel : operator.level.rank ≤ operator.leftLevel.rank := by
      cases operator <;> decide
    exact (ihleft (Nat.lt_of_lt_of_le hpart hlevel)).append _
  | @unary operator =>
    cases operator with
    | not => exact absurd (show Level.comparison.rank < Level.not.rank from hpart) (by decide)
    | negate | plus | invert => exact beginsFree_of_isWord (isWord_of_lookup rfl) (by decide) _
  | @boolean operator =>
    have hweak : ¬Level.comparison.rank < operator.level.rank := by
      cases operator <;> decide
    exact absurd hpart hweak
  | comparison => exact absurd hpart (Nat.lt_irrefl _)
  | conditional => exact absurd hpart (Nat.not_lt_zero _)
  | member _ ih | emptyCall _ ih => exact (ih hprimary).append _
  | call _ _ _ ih => exact (((ih hprimary).append _).append _).append _
  | subscript _ _ ih => exact ((ih hprimary).append _).append _
  | noItems | comma | item | noValues | value | noLinks | link => exact hpart.elim

end NoteCheck.Code
