/-
# The block in a section

A section is looked through for its end and for its block, and both times fences keep what stands
between them from counting. The main statement, `extractBlock_of_isReadable`: in a note whose
heading, fences and code lie as they should, the block is the code between the fences, whatever its
lines look like.
-/
import NoteCheck.Note.Block
import NoteCheck.Proofs.Note.Section
import NoteCheck.Proofs.Sorted
import Mathlib.Data.Bool.AllAny
import Mathlib.Data.String.Basic

namespace NoteCheck.Note

open Text

variable {level : Option Nat} {marker opening : List Char}
    {before prose body after : List (List Char)}

/-! ## Fences -/

/-- Three or more marks of one kind, and a tag. -/
theorem fence?_replicate {mark : Char} {n : Nat} {tag : List Char} (hmark : mark = '`' ∨ mark = '~')
    (hn : 3 ≤ n) (htag : ∀ c ∈ tag, isTagChar c = true) :
    fence? (List.replicate n mark ++ tag) = some (List.replicate n mark) := by
  obtain ⟨n, rfl⟩ : ∃ m, n = m + 1 := ⟨n - 1, by omega⟩
  have hblank : isBlank mark = false := by obtain rfl | rfl := hmark <;> decide
  have hstart : trimStart (List.replicate (n + 1) mark ++ tag) =
      List.replicate (n + 1) mark ++ tag := by
    rw [trimStart, List.replicate_succ, List.cons_append,
      List.dropWhile_cons_of_neg (by simp [hblank])]
  have hother : ∀ c ∈ tag.head?, (c == mark) = false := by
    intro c hc
    have htagChar := htag c (List.mem_of_mem_head? hc)
    rw [beq_eq_false_iff_ne]
    rintro rfl
    obtain rfl | rfl := hmark <;> exact absurd htagChar (by decide)
  have hsame : ∀ c ∈ List.replicate (n + 1) mark, (c == mark) = true := fun c hc =>
    beq_iff_eq.2 (List.eq_of_mem_replicate hc)
  -- the tag holds no mark, so that the marks end where it begins
  have hrest : tag.takeWhile (· == mark) = [] ∧ tag.dropWhile (· == mark) = tag := by
    cases tag with
    | nil => exact ⟨rfl, rfl⟩
    | cons c tag => simp [hother c rfl]
  have hmarks : (List.replicate (n + 1) mark ++ tag).takeWhile (· == mark) =
      List.replicate (n + 1) mark := by
    rw [List.takeWhile_append_of_pos hsame, hrest.1, List.append_nil]
  have hdrop : (List.replicate (n + 1) mark ++ tag).dropWhile (· == mark) = tag := by
    rw [List.dropWhile_append_of_pos hsame, hrest.2]
  have htrim : (trim tag).all isTagChar = true := by
    obtain ⟨a, b, heq, -⟩ := exists_append_trim tag
    refine List.all_eq_true.2 fun c hc => htag c ?_
    rw [heq]
    exact List.mem_append_left _ (List.mem_append_right _ hc)
  rw [fence?, hstart]
  show (if (mark = '`' ∨ mark = '~') ∧ 3 ≤ _ ∧ _ then _ else none) = _
  rw [hmarks, hdrop, if_pos ⟨hmark, by rwa [List.length_replicate], htrim⟩]

/-- No line closes the fence with the given marks. -/
def StaysOpen (opening : List Char) (body : List (List Char)) : Prop :=
  ∀ line ∈ body, ∀ marks, fence? line = some marks → ¬opening <+: marks

theorem staysOpen_iff :
    StaysOpen opening body ↔ ∀ line ∈ body, (fence? line).any (closes opening) = false := by
  refine forall₂_congr fun line _ => ?_
  cases fence? line with
  | none => exact iff_of_true nofun rfl
  | some marks =>
    rw [Option.any_some, closes, Bool.eq_false_iff, ne_eq, List.isPrefixOf_iff_prefix]
    refine ⟨fun h => h marks rfl, ?_⟩
    rintro h _ ⟨⟩
    exact h

theorem StaysOpen.cons {line : List Char} (h : StaysOpen opening (line :: body)) :
    (fence? line).any (closes opening) = false ∧ StaysOpen opening body := by
  rw [staysOpen_iff] at h ⊢
  exact List.forall_mem_cons.1 h

theorem any_closes_of_fence? {closing : List Char} (h : fence? closing = some opening) :
    (fence? closing).any (closes opening) = true := by
  simpa only [h, Option.any_some, closes] using List.isPrefixOf_iff_prefix.2
    (List.prefix_refl opening)

/-! ## The scan for the block -/

/-- Lines that do not close a fence stand before the one that does. -/
theorem beforeFence?_append_of_staysOpen (h : StaysOpen opening body) (rest : List (List Char)) :
    Block.beforeFence? opening (body ++ rest) =
      (Block.beforeFence? opening rest).map (body ++ ·) := by
  induction body with
  | nil => exact (congrFun Option.map_id _).symm
  | cons line body ih =>
    obtain ⟨hline, hmore⟩ := h.cons
    rw [List.cons_append, Block.beforeFence?, hline, if_neg Bool.false_ne_true, ih hmore,
      Option.map_map]
    rfl

/-- The lines before the one that closes a fence. -/
theorem beforeFence?_append (h : StaysOpen opening body) {closing : List Char}
    (hclosing : (fence? closing).any (closes opening) = true) (after : List (List Char)) :
    Block.beforeFence? opening (body ++ closing :: after) = some body := by
  rw [beforeFence?_append_of_staysOpen h, Block.beforeFence?, if_pos hclosing, Option.map_some,
    List.append_nil]

/-- Lines without fences stand before the block. -/
theorem fenced?_append_of_forall (hprose : ∀ line ∈ prose, fence? line = none)
    (rest : List (List Char)) : Block.fenced? (prose ++ rest) = Block.fenced? rest := by
  induction prose with
  | nil => rfl
  | cons line prose ih =>
    obtain ⟨hline, hmore⟩ := List.forall_mem_cons.1 hprose
    rw [List.cons_append, Block.fenced?, hline]
    exact ih hmore

/-- The first fence opens the block. -/
theorem fenced?_append (hprose : ∀ line ∈ prose, fence? line = none) {opener : List Char}
    (hopener : fence? opener = some opening) (rest : List (List Char)) :
    Block.fenced? (prose ++ opener :: rest) = Block.beforeFence? opening rest := by
  rw [fenced?_append_of_forall hprose, Block.fenced?, hopener]

/-! ## The scan for the end of the section -/

theorem afterMarker?_append_of_forall (hbefore : ∀ line ∈ before, ¬marker <+: trim line)
    (rest : List (List Char)) :
    afterMarker? marker (before ++ rest) = afterMarker? marker rest := by
  induction before with
  | nil => rfl
  | cons line before ih =>
    obtain ⟨hline, hmore⟩ := List.forall_mem_cons.1 hbefore
    rw [List.cons_append, afterMarker?, if_neg (by rwa [List.isPrefixOf_iff_prefix]), ih hmore]

theorem afterMarker?_append {heading : List Char} (hbefore : ∀ line ∈ before, ¬marker <+: trim line)
    (hheading : marker <+: trim heading) (rest : List (List Char)) :
    afterMarker? marker (before ++ heading :: rest) = some rest := by
  rw [afterMarker?_append_of_forall hbefore, afterMarker?,
    if_pos (List.isPrefixOf_iff_prefix.2 hheading)]

/-- Between fences nothing ends a section. -/
theorem untilHeading_fenced (h : StaysOpen opening body) {closing : List Char}
    (hclosing : (fence? closing).any (closes opening) = true) (after : List (List Char)) :
    untilHeading level (some opening) (body ++ closing :: after) =
      body ++ closing :: untilHeading level none after := by
  induction body with
  | nil => rw [List.nil_append, untilHeading, if_pos hclosing, List.nil_append]
  | cons line body ih =>
    obtain ⟨hline, hmore⟩ := h.cons
    rw [List.cons_append, untilHeading, hline, if_neg Bool.false_ne_true, ih hmore,
      List.cons_append]

/-- Lines without fences, whose headings are all below the level, do not end a section. -/
theorem untilHeading_append (h : ∀ line ∈ prose, fence? line = none ∧ ¬Ends level line)
    (rest : List (List Char)) :
    untilHeading level none (prose ++ rest) = prose ++ untilHeading level none rest := by
  induction prose with
  | nil => rfl
  | cons line prose ih =>
    obtain ⟨⟨hfence, hends⟩, hmore⟩ := List.forall_mem_cons.1 h
    rw [List.cons_append, untilHeading, hfence]
    dsimp only
    rw [if_neg (any_headingLevel_iff.not.2 hends), ih hmore, List.cons_append]

/-- The blanks around a heading do not count. -/
theorem headingLevel_trim (line : List Char) : headingLevel (trim line) = headingLevel line := by
  have hstart : trimStart (trim line) = trim line := by
    have htrimmed := trimmed_trim line
    cases htrim : trim line with
    | nil => rfl
    | cons c rest =>
      rw [htrim] at htrimmed
      rw [trimStart, List.dropWhile_cons_of_neg]
      simp [htrimmed.head c rfl]
  -- blanks at the end hold no mark, so that the marks and what follows them stay
  obtain ⟨b, hline, hb⟩ : ∃ b, trimStart line = trim line ++ b ∧ ∀ c ∈ b, isBlank c = true :=
    ⟨_, (List.rdropWhile_append_rtakeWhile (p := isBlank) (l := trimStart line)).symm,
      fun c hc => List.mem_rtakeWhile_imp hc⟩
  have hmark : ∀ c ∈ b, (c == '#') = false := by
    intro c hc
    rw [beq_eq_false_iff_ne]
    rintro rfl
    exact absurd (hb _ hc) (by decide)
  have htake : b.takeWhile (· == '#') = [] ∧ b.dropWhile (· == '#') = b := by
    cases b with
    | nil => exact ⟨rfl, rfl⟩
    | cons c b => simp [hmark c List.mem_cons_self]
  have hmarks : (trim line ++ b).takeWhile (· == '#') = (trim line).takeWhile (· == '#') := by
    rw [List.takeWhile_append, htake.1, List.append_nil]
    split
    · rename_i hall
      exact ((List.takeWhile_prefix _).eq_of_length hall).symm
    · rfl
  have hdrop : (trim line ++ b).dropWhile (· == '#') = (trim line).dropWhile (· == '#') ++ b := by
    rw [List.dropWhile_append, htake.2]
    split
    · rename_i hempty
      rw [List.isEmpty_iff.1 hempty, List.nil_append]
    · rfl
  have hhead : ((trim line).dropWhile (· == '#') ++ b).head?.all isBlank =
      ((trim line).dropWhile (· == '#')).head?.all isBlank := by
    cases (trim line).dropWhile (· == '#') with
    | nil =>
      cases b with
      | nil => rfl
      | cons c b => exact hb c List.mem_cons_self
    | cons c rest => rfl
  rw [headingLevel, headingLevel, hstart, hline, hmarks, hdrop, hhead]

/-! ## Notes -/

/-- The lines of a note with code. The code stands between two fences with the same marks, the first
of which may have a tag, in the section of a heading. -/
structure CodeNote where
  before : List (List Char)
  heading : List Char
  prose : List (List Char)
  mark : Char
  count : Nat
  tag : List Char
  body : List (List Char)
  after : List (List Char)

namespace CodeNote

/-- The marks of the fences. -/
def fence (note : CodeNote) : List Char := List.replicate note.count note.mark

/-- All lines of a note. -/
def lines (note : CodeNote) : List (List Char) :=
  note.before ++ note.heading ::
    (note.prose ++ (note.fence ++ note.tag) :: (note.body ++ note.fence :: note.after))

/-- The heading is the first line that begins with it, no heading ends the section before the code,
and no line of the code closes the fence. -/
structure IsReadable (note : CodeNote) (level : Nat) : Prop where
  heading : headingLevel note.heading = some level
  before : ∀ line ∈ note.before, ¬trim note.heading <+: trim line
  prose : ∀ line ∈ note.prose,
    fence? line = none ∧ ∀ found, headingLevel line = some found → level < found
  mark : note.mark = '`' ∨ note.mark = '~'
  count : 3 ≤ note.count
  tag : ∀ c ∈ note.tag, isTagChar c = true
  body : StaysOpen note.fence note.body
  notBlank : ∃ line ∈ note.body, ∃ c ∈ line, isBlank c = false
  lines : ∀ line ∈ note.lines, '\n' ∉ line ∧ line.getLast? ≠ some '\r'

variable {note : CodeNote} {n : Nat}

/-- The lines between the fences are found. -/
theorem IsReadable.fenced?_eq (h : note.IsReadable n) {text : List Char}
    (htext : Written note.lines text) :
    (sectionLines? text note.heading).bind Block.fenced? = some note.body := by
  have hopener : fence? (note.fence ++ note.tag) = some note.fence :=
    fence?_replicate h.mark h.count h.tag
  have hclosing : fence? note.fence = some note.fence := by
    have hplain : fence? (note.fence ++ []) = some note.fence :=
      fence?_replicate h.mark h.count nofun
    rwa [List.append_nil] at hplain
  have hsection : sectionLines? text note.heading = some (note.prose ++ (note.fence ++ note.tag) ::
      (note.body ++ note.fence :: untilHeading (some n) none note.after)) := by
    have hprose : ∀ line ∈ note.prose, fence? line = none ∧ ¬Ends (some n) line := fun line hline =>
      (h.prose line hline).imp_right not_ends_some_iff.2
    rw [sectionLines?, htext.lines_eq h.lines, CodeNote.lines,
      afterMarker?_append h.before (List.prefix_refl _), headingLevel_trim, h.heading,
      Option.map_some, untilHeading_append hprose, untilHeading, hopener]
    dsimp only
    rw [untilHeading_fenced h.body (any_closes_of_fence? hclosing)]
  rw [hsection, Option.bind_some, fenced?_append (fun line hline => (h.prose line hline).1) hopener,
    beforeFence?_append h.body (any_closes_of_fence? hclosing)]

end CodeNote

/-- The block with lines that are not all blank holds the lines and their identifiers. -/
theorem ofLines_of_notBlank (h : ∃ line ∈ body, ∃ c ∈ line, isBlank c = false) :
    (Block.ofLines body).code = String.ofList (unlines body) ∧
      Sorted.Increasing id (Block.ofLines body).identifiers ∧
      ∀ word, word ∈ (Block.ofLines body).identifiers ↔
        ∃ line ∈ body, IsMatch line word.toList := by
  have hblank : ¬body.all (·.all isBlank) = true := by
    obtain ⟨line, hline, c, hc, hshown⟩ := h
    intro hall
    have hblank := List.all_eq_true.1 (List.all_eq_true.1 hall line hline) c hc
    exact absurd (hshown.symm.trans hblank) Bool.false_ne_true
  rw [Block.ofLines, if_neg hblank]
  have hnil : Sorted.Increasing id ([] : List String) := List.Pairwise.nil
  obtain ⟨hsorted, hmem⟩ :=
    Sorted.foldl_insert hnil ((identifiers (unlines body)).map String.ofList)
  refine ⟨rfl, hsorted, fun word => (hmem word).trans ?_⟩
  have hword : word ∈ (identifiers (unlines body)).map String.ofList ↔
      word.toList ∈ identifiers (unlines body) := by
    rw [List.mem_map]
    constructor
    · rintro ⟨cs, hcs, rfl⟩
      rwa [String.toList_ofList]
    · exact fun hcs => ⟨word.toList, hcs, String.ofList_toList⟩
  rw [hword, identifiers_unlines, List.mem_flatMap, or_iff_left (List.not_mem_nil)]
  exact exists_congr fun line => and_congr_right fun _ => mem_identifiers_iff

/-- The block of a note is its code between the fences, each line with one line break, and the
identifiers in it. -/
theorem extractBlock_of_isReadable {note : CodeNote} {n : Nat} {text heading : String}
    (h : note.IsReadable n) (hheading : heading.toList = note.heading)
    (htext : Written note.lines text.toList) :
    (extractBlock text heading).code = String.ofList (unlines note.body) ∧
      Sorted.Increasing id (extractBlock text heading).identifiers ∧
      ∀ word, word ∈ (extractBlock text heading).identifiers ↔
        ∃ line ∈ note.body, IsMatch line word.toList := by
  have hblock : extractBlock text heading = Block.ofLines note.body := by
    rw [extractBlock, hheading, h.fenced?_eq htext]
  rw [hblock]
  exact ofLines_of_notBlank h.notBlank

/-- Code with a comment, a heading and another fence in it, in a text with both kinds of line
breaks. -/
theorem extractBlock_of_comment :
    let note : CodeNote := {
      before := ["# Note".toList, "```".toList]
      heading := "## Lambda".toList
      prose := ["### Code".toList, []]
      mark := '~'
      count := 3
      tag := "python".toList
      body := ["# f".toList, "## Lambda".toList, "```".toList, "x1 = 2y".toList]
      after := ["~~~".toList] }
    let text :=
      "# Note\r\n```\n## Lambda\n### Code\n\n~~~python\n# f\r\n## Lambda\n```\nx1 = 2y\n" ++
      "~~~\n~~~\n"
    note.IsReadable 2 ∧ Written note.lines text.toList ∧
      (extractBlock text "## Lambda").code = "# f\n## Lambda\n```\nx1 = 2y\n" ∧
      ∀ word, word ∈ (extractBlock text "## Lambda").identifiers ↔
        ∃ line ∈ note.body, IsMatch line word.toList := by
  intro note text
  -- a heading of a lower level does not end the prose
  have hcode : headingLevel "### Code".toList = some 3 := by decide +kernel
  have hreadable : note.IsReadable 2 := {
    heading := by decide +kernel
    before := by decide +kernel
    prose := List.forall_mem_cons.2 ⟨⟨by decide +kernel, fun found hfound => by
        cases hcode.symm.trans hfound
        decide⟩, List.forall_mem_singleton.2 ⟨by decide +kernel, nofun⟩⟩
    mark := .inr rfl
    count := by decide
    tag := List.all_iff_forall_prop.1 (by decide +kernel)
    body := staysOpen_iff.2 (by decide +kernel)
    notBlank := ⟨"# f".toList, List.mem_cons_self, '#', by decide, by decide⟩
    lines := by decide +kernel }
  have htext : text.toList = "# Note".toList ++ '\r' :: '\n' :: ("```".toList ++ '\n' ::
      ("## Lambda".toList ++ '\n' :: ("### Code".toList ++ '\n' :: ([] ++ '\n' ::
      ("~~~python".toList ++ '\n' :: ("# f".toList ++ '\r' :: '\n' :: ("## Lambda".toList ++ '\n' ::
      ("```".toList ++ '\n' :: ("x1 = 2y".toList ++ '\n' :: ("~~~".toList ++ '\n' ::
      ("~~~".toList ++ '\n' :: []))))))))))) := by decide +kernel
  have hwritten : Written note.lines text.toList := by
    rw [htext]
    exact .returned (.lineBreak (.lineBreak (.lineBreak (.lineBreak (.lineBreak (.returned
      (.lineBreak (.lineBreak (.lineBreak (.lineBreak (.lineBreak .nil)))))))))))
  obtain ⟨hbody, -, hwords⟩ := extractBlock_of_isReadable hreadable
    (show "## Lambda".toList = note.heading from rfl) hwritten
  exact ⟨hreadable, hwritten, hbody.trans (by decide +kernel), hwords⟩

end NoteCheck.Note
