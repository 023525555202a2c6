/-
# Statuses of tools

A tool succeeds, or it fails with one of two statuses. A tool is made of steps that write and
of steps that say how it ends, one after the other, so what each step keeps a whole tool keeps.
-/
import NoteCheck.Shell.Printing
import NoteCheck.Shell.Test

namespace NoteCheck.Shell

/-! ## Steps one after the other -/

/-- A property of acts that those without steps have, and those made of others that have it. -/
structure Composes {m : Type → Type} [Monad m] (P : ∀ {α : Type}, m α → Prop) : Prop where
  pure : ∀ {α : Type} (a : α), P (pure a)
  bind : ∀ {α β : Type} {act : m α} {next : α → m β}, P act → (∀ a, P (next a)) →
    P (act >>= next)

namespace Composes

variable {m : Type → Type} [Monad m] {P : ∀ {α : Type}, m α → Prop} {α β σ : Type}

/-- One step more for each member of a list, on what the steps before have come to. -/
theorem foldlM (h : Composes @P) {step : σ → α → m σ} (hstep : ∀ s a, P (step s a)) (l : List α)
    (s : σ) : P (l.foldlM step s) := by
  induction l generalizing s with
  | nil => exact h.pure s
  | cons a l ih =>
    rw [List.foldlM_cons]
    exact h.bind (hstep s a) ih

/-- A step for each member of a list. -/
theorem mapM [LawfulMonad m] (h : Composes @P) {f : α → m β} (hf : ∀ a, P (f a)) (l : List α) :
    P (l.mapM f) := by
  induction l with
  | nil => exact h.pure []
  | cons a l ih =>
    rw [List.mapM_cons]
    exact h.bind (hf a) fun b => h.bind ih fun bs => h.pure (b :: bs)

/-- A step for each member of a list, without results. -/
theorem forM (h : Composes @P) {f : α → m PUnit} (hf : ∀ a, P (f a)) (l : List α) :
    P (l.forM f) := by
  induction l with
  | nil => exact h.pure PUnit.unit
  | cons a l ih =>
    exact h.bind (hf a) fun _ => ih

/-- A step for each member of a list, up to the one that ends the loop. -/
theorem forIn (h : Composes @P) {step : α → σ → m (ForInStep σ)} (hstep : ∀ a s, P (step a s))
    (l : List α) (s : σ) : P (ForIn.forIn l s step) := by
  induction l generalizing s with
  | nil => exact h.pure s
  | cons a l ih =>
    rw [List.forIn_cons]
    refine h.bind (hstep a s) fun result => ?_
    cases result with
    | done s => exact h.pure s
    | yield s => exact ih s

/-- A step for each member of a list, with the results that are there. -/
theorem filterMapM (h : Composes @P) {f : α → m (Option β)} (hf : ∀ a, P (f a)) (l : List α) :
    P (l.filterMapM f) := by
  have hloop : ∀ found, P (List.filterMapM.loop f l found) := by
    induction l with
    | nil => exact fun found => h.pure found.reverse
    | cons a l ih =>
      intro found
      rw [List.filterMapM.loop]
      refine h.bind (hf a) fun result => ?_
      cases result with
      | none => exact ih found
      | some b => exact ih (b :: found)
  exact hloop []

/-- A step for each member of a list, up to the first that says yes. -/
theorem anyM (h : Composes @P) {f : α → m Bool} (hf : ∀ a, P (f a)) (l : List α) :
    P (l.anyM f) := by
  induction l with
  | nil => exact h.pure false
  | cons a l ih =>
    rw [List.anyM]
    refine h.bind (hf a) fun result => ?_
    cases result with
    | false => exact ih
    | true => exact h.pure true

/-- A step for each member of a list, up to the first that says no. -/
theorem allM (h : Composes @P) {f : α → m Bool} (hf : ∀ a, P (f a)) (l : List α) :
    P (l.allM f) := by
  induction l with
  | nil => exact h.pure true
  | cons a l ih =>
    rw [List.allM]
    refine h.bind (hf a) fun result => ?_
    cases result with
    | false => exact h.pure false
    | true => exact ih

/-- The rounds of a loop, and what happens when they do not suffice. -/
theorem rounds (h : Composes @P) {exhausted : m β} (hexhausted : P exhausted)
    {round : α → m (α ⊕ β)} (hround : ∀ a, P (round a)) (n : Nat) (a : α) :
    P (NoteCheck.rounds exhausted round n a) := by
  induction n generalizing a with
  | zero => exact hexhausted
  | succ n ih =>
    rw [NoteCheck.rounds]
    refine h.bind (hround a) fun result => ?_
    cases result with
    | inl a => exact ih a
    | inr b => exact h.pure b

end Composes

/-! ## Tools -/

namespace Tool

variable {α β : Type}

/-- A tool does not end with a status above two. -/
def Keeps (tool : Tool α) : Prop :=
  ∀ (surroundings : Surroundings) (effect : Effect), effect.status ≤ 2 →
    ((tool.run surroundings).run effect).2.status ≤ 2

/-- Steps that keep the status low make tools that do. -/
theorem composes : Composes @Keeps where
  pure _ _ _ heffect := heffect
  bind htool hnext surroundings effect heffect :=
    hnext _ surroundings _ (htool surroundings effect heffect)

theorem keeps_read : Keeps (read : Tool Surroundings) := fun _ _ heffect => heffect

section

variable {channel : Channel} {bytes : List UInt8} {text message tool fault a b name : String}
  {path : Files.Path} {arguments : List String}

/-- What a tool writes does not change its status. -/
theorem keeps_write : Keeps (write channel bytes) := fun _ _ heffect => heffect

theorem keeps_print : Keeps (print text) := keeps_write

theorem keeps_complain : Keeps (complain message) := keeps_write

/-- The first status that is not zero stays. -/
theorem keeps_finish {status : Nat} (h : status ≤ 2) : Keeps (finish status) := by
  intro surroundings effect heffect
  show (if effect.status = 0 then { effect with status } else effect).status ≤ 2
  split
  · exact h
  · exact heffect

theorem keeps_complainHere : Keeps (complainHere message) :=
  composes.bind keeps_read fun _ => keeps_complain

/-- A file that cannot be read leads to failure. -/
theorem keeps_fileOf : Keeps (fileOf tool path) := by
  unfold fileOf
  split
  · exact composes.bind keeps_read fun _ => composes.pure _
  · refine composes.bind keeps_read fun surroundings => ?_
    split
    · exact composes.pure _
    · exact composes.bind keeps_complain fun _ =>
        composes.bind (keeps_finish (by decide)) fun _ => composes.pure _

/-- An unknown option fails with one. -/
theorem keeps_complainOfOption : Keeps (complainOfOption tool fault) :=
  composes.bind keeps_complain fun _ =>
    composes.bind keeps_complain fun _ => keeps_finish (by decide)

theorem keeps_complainOfMissing : Keeps (complainOfMissing tool) :=
  composes.bind keeps_complain fun _ =>
    composes.bind keeps_complain fun _ => keeps_finish (by decide)

/-- Joining files fails where an option is unknown or a file cannot be read. -/
theorem keeps_cat : Keeps (cat arguments) := by
  unfold cat
  dsimp only
  split
  · exact keeps_complainOfOption
  · refine composes.bind (composes.foldlM (fun state path => ?_) _ _) fun _ => composes.pure _
    refine composes.bind keeps_fileOf fun found => ?_
    cases found with
    | none => exact composes.pure _
    | some bytes => exact composes.bind keeps_write fun _ => composes.pure _

/-- Counting fails where joining does. -/
theorem keeps_wc : Keeps (wc arguments) := by
  unfold wc
  dsimp only
  split
  · exact keeps_complainOfOption
  · refine composes.bind (composes.filterMapM (fun path => ?_) _) fun counted => ?_
    · exact composes.bind keeps_fileOf fun _ => composes.pure _
    · refine composes.bind (composes.forIn (fun _ _ => ?_) _ _) fun _ => ?_
      · exact composes.bind keeps_print fun _ => composes.pure _
      · split
        · exact keeps_print
        · exact composes.pure _

/-- Beginnings and ends of files are shown alike. -/
theorem keeps_parts {choose : Extent → List (List UInt8) → List (List UInt8)} :
    Keeps (parts tool choose arguments) := by
  unfold parts
  dsimp only
  refine composes.bind (composes.forIn (fun path isFirst => ?_) _ _) fun _ => composes.pure _
  refine composes.bind keeps_fileOf fun found => ?_
  cases found with
  | none => exact composes.pure _
  | some bytes =>
    dsimp only
    split
    · exact composes.bind keeps_print fun _ => composes.bind keeps_write fun _ => composes.pure _
    · exact composes.bind keeps_write fun _ => composes.pure _

theorem keeps_head : Keeps (head arguments) := by
  rw [head]
  exact keeps_parts

theorem keeps_tail : Keeps (tail arguments) := by
  rw [tail]
  exact keeps_parts

/-- Sorting fails where joining does. -/
theorem keeps_sort : Keeps (sort arguments) := by
  unfold sort
  dsimp only
  split
  · exact keeps_complainOfOption
  · exact composes.bind (composes.filterMapM (fun _ => keeps_fileOf) _) fun _ => keeps_write

/-- Showing a name fails without an operand, and with too many. -/
theorem keeps_basename : Keeps (basename arguments) := by
  unfold basename
  dsimp only
  generalize (if arguments.head? = some "--" then arguments.tail else arguments) = operands
  split
  · exact keeps_complainOfMissing
  · exact composes.forM (fun _ => keeps_print) _
  · exact composes.forM (fun _ => keeps_print) _
  · exact keeps_print
  · exact keeps_print
  · exact composes.bind keeps_complain fun _ =>
      composes.bind keeps_complain fun _ => keeps_finish (by decide)

theorem keeps_dirname : Keeps (dirname arguments) := by
  unfold dirname
  split
  · exact keeps_complainOfMissing
  · exact composes.forM (fun _ => keeps_print) _

/-- Listing fails with two where there is no such file. -/
theorem keeps_ls : Keeps (ls arguments) := by
  unfold ls
  dsimp only
  generalize List.mergeSort _ _ = paths
  refine composes.bind keeps_read fun surroundings => ?_
  refine composes.bind (composes.forIn (fun path _ => ?_) _ _) fun _ => ?_
  · split
    · exact composes.bind keeps_print fun _ => composes.pure _
    · exact composes.pure _
    · exact composes.bind keeps_complain fun _ =>
        composes.bind (keeps_finish (by decide)) fun _ => composes.pure _
  · refine composes.bind (composes.forIn (fun path _ => ?_) _ _) fun _ => composes.pure _
    split
    · split
      · exact composes.bind keeps_print fun _ => composes.bind keeps_print fun _ => composes.pure _
      · exact composes.bind keeps_print fun _ => composes.pure _
    · exact composes.pure _

/-! ## Tests -/

theorem keeps_look : Keeps (look path) := by
  refine composes.bind keeps_read fun surroundings => ?_
  split
  · exact composes.pure _
  · exact composes.pure _
  · exact composes.pure _

/-- A test of one text looks at a file at most. -/
theorem keeps_unaryTest? : ∀ test ∈ unaryTest? name text, Keeps test := by
  intro test htest
  have hfound {f : Found → Bool} : Keeps (do return f (← look text)) :=
    composes.bind keeps_look fun _ => composes.pure _
  unfold unaryTest? at htest
  split at htest
  all_goals cases htest
  · exact composes.pure _
  · exact composes.pure _
  · exact hfound
  · exact hfound
  · exact hfound
  · refine composes.bind keeps_look fun found => ?_
    cases found <;> exact composes.pure _
  · exact hfound
  · exact hfound
  · refine composes.bind keeps_look fun found => ?_
    cases found <;> exact composes.pure _

/-- A text that is no number ends a test with two. -/
theorem keeps_testNumber : Keeps (testNumber text) := by
  unfold testNumber
  dsimp only
  split
  · exact composes.pure _
  · exact composes.bind keeps_complainHere fun _ =>
      composes.bind (keeps_finish (by decide)) fun _ => composes.pure _

theorem keeps_comparedTest {compare : Int → Int → Bool} : Keeps (comparedTest compare a b) := by
  refine composes.bind keeps_testNumber fun first => composes.bind keeps_testNumber fun second => ?_
  cases first with
  | none => exact composes.pure _
  | some first => cases second <;> exact composes.pure _

/-- A test of two texts compares them, or the numbers that they are. -/
theorem keeps_binaryTest? : ∀ test ∈ binaryTest? a name b, Keeps test := by
  intro test htest
  unfold binaryTest? at htest
  split at htest
  all_goals cases htest
  · exact composes.pure _
  · exact composes.pure _
  · exact composes.pure _
  · exact composes.pure _
  all_goals exact keeps_comparedTest

/-- A test of arguments is made of tests of one text or of two. -/
theorem keeps_testTerm {depth : Nat} : Keeps (testTerm depth arguments) := by
  induction depth generalizing arguments with
  | zero => cases arguments <;> exact composes.pure _
  | succ depth ih =>
    cases arguments with
    | nil => exact composes.pure _
    | cons first rest =>
      unfold testTerm
      dsimp only
      split
      · rename_i test others hbinary
        split at hbinary
        · obtain ⟨test, htest, hpair⟩ := Option.map_eq_some_iff.1 hbinary
          cases hpair
          exact composes.bind (keeps_binaryTest? test htest) fun _ => composes.pure _
        · cases hbinary
      · split
        · exact composes.bind ih fun _ => composes.pure _
        · split
          · split
            · rename_i test htest
              exact composes.bind (keeps_unaryTest? test htest) fun _ => composes.pure _
            · exact composes.pure _
          · exact composes.pure _

/-- Tests with words between them fail with two where one word is out of place. -/
theorem keeps_testTerms {depth : Nat} {whole part : Bool} :
    Keeps (testTerms depth whole part arguments) := by
  induction depth generalizing whole part arguments with
  | zero => exact composes.pure _
  | succ depth ih =>
    refine composes.bind keeps_testTerm fun result => ?_
    dsimp only
    split
    · exact ih
    · exact ih
    · exact composes.pure _
    · exact composes.bind keeps_complainHere fun _ =>
        composes.bind (keeps_finish (by decide)) fun _ => composes.pure _

/-- A test that does not hold fails with one. -/
theorem keeps_testAs : Keeps (testAs name arguments) := by
  refine composes.bind (fun _ _ heffect => keeps_testTerms _ _ heffect) fun holds => ?_
  split
  · exact keeps_finish (by decide)
  · exact composes.pure _

theorem keeps_test : Keeps (test arguments) := by
  rw [test]
  exact keeps_testAs

theorem keeps_testInBrackets : Keeps (testInBrackets arguments) := by
  unfold testInBrackets
  split
  · exact keeps_testAs
  · exact composes.bind keeps_complainHere fun _ => keeps_finish (by decide)

/-! ## Printing -/

theorem keeps_echo : Keeps (echo arguments) := keeps_write

/-- A round of a format fails where a directive is unknown or its argument is no number. -/
theorem keeps_printRound {parts : List FormatPart} : Keeps (printRound parts arguments) := by
  induction parts generalizing arguments with
  | nil => exact composes.pure _
  | cons part parts ih =>
    cases part with
    | bytes bytes => exact composes.bind keeps_write fun _ => ih
    | directive directive =>
      unfold printRound
      dsimp only
      split
      · exact composes.bind keeps_complainHere fun _ =>
          composes.bind (keeps_finish (by decide)) fun _ => composes.pure _
      · have hwritten {bytes : List UInt8} {stops : Bool} :
            Keeps (do
              write .output bytes
              if stops then return none else printRound parts arguments.tail) := by
          refine composes.bind keeps_write fun _ => ?_
          cases stops with
          | true => exact composes.pure _
          | false => exact ih
        split
        · exact composes.bind keeps_complainHere fun _ =>
            composes.bind (keeps_finish (by decide)) fun _ => hwritten
        · exact hwritten

/-- Printing fails where a round of the format does. -/
theorem keeps_printf : Keeps (printf arguments) := by
  unfold printf
  split
  · exact composes.bind keeps_complainHere fun _ => keeps_finish (by decide)
  · refine composes.rounds (composes.pure _) (fun arguments => ?_) _ _
    refine composes.bind keeps_printRound fun left => ?_
    split
    · exact composes.pure _
    · exact composes.pure _
    · split <;> exact composes.pure _

end

end Tool

end NoteCheck.Shell
