/-
# Normal forms that are read back

The canonical form of what a text denotes need not denote it again: a name loses its blanks, and
may then be read as something else, and a name with brackets that are not balanced takes the text
around it apart. The main statement, `TypeExpr.ofText_render_ofText_iff`: nothing else goes wrong.
-/
import NoteCheck.Proofs.Signature.RoundTrip
import Mathlib.Data.List.Forall2

namespace NoteCheck.Signature

namespace TypeExpr

/-! ## Names of normal forms -/

/-- A name that is neither the word for any type nor the spelling of a primitive type, and does not
have the form of a container, a dict or a tuple. -/
structure IsSettled (name : String) : Prop where
  ne_any : name ≠ "Any"
  not_spelling : Primitive.ofSpelling? name = none
  not_operand : ∀ word ∈ words, Operand.after? word name.toList = none

/-- A name that is what is left of a text when its blanks are taken out. -/
def IsNormal (name : String) : Prop :=
  ∃ text, Text.Trimmed text ∧ Shape.Layer text (.name text) ∧
    name.toList = text.filter (!Text.isBlank ·)

/-- A name stands for any type, for a primitive one, or for itself without its blanks. -/
theorem ofName_cases (text : List Char) : ofName text = any ∨ (∃ p, ofName text = primitive p) ∨
    ofName text = named (String.ofList (text.filter (!Text.isBlank ·))) := by
  rw [ofName]
  split_ifs
  · exact .inl rfl
  · cases Primitive.ofSpelling? (String.ofList text) with
    | none => exact .inr (.inr rfl)
    | some p => exact .inr (.inl ⟨p, rfl⟩)

/-- Only one name stands for any type. -/
theorem eq_of_ofName_eq_any {text : List Char} (h : ofName text = any) : text = "Any".toList := by
  rw [ofName] at h
  split_ifs at h with hany
  · rw [← hany, String.toList_ofList]
  · cases hspelling : Primitive.ofSpelling? (String.ofList text) <;> simp [hspelling] at h

/-- A name that stands for a primitive type is one of its spellings. -/
theorem mem_of_ofName_eq_primitive {text : List Char} {p : Primitive}
    (h : ofName text = primitive p) : (String.ofList text, p) ∈ Primitive.spellings := by
  rw [ofName] at h
  split_ifs at h
  cases hspelling : Primitive.ofSpelling? (String.ofList text) with
  | none => simp [hspelling] at h
  | some q =>
    obtain rfl : q = p := by simpa [hspelling] using h
    obtain ⟨before, after, heq, -⟩ := List.lookup_eq_some_iff.1 hspelling
    rw [heq]
    simp

/-- What holds of a text when it holds of the parts of its outermost layer holds of every text. -/
theorem layer_induction {motive : List Char → Prop}
    (step : ∀ cs shape, Shape.Layer (Text.trim cs) shape → (∀ p ∈ shape.parts, motive p) →
      motive cs) (cs : List Char) : motive cs := by
  induction hn : cs.length using Nat.strong_induction_on generalizing cs with
  | _ n ih =>
    subst hn
    exact step cs (Shape.ofText cs) (Shape.ofText_eq_iff.1 rfl)
      fun p hp => ih p.length (Shape.length_lt_of_mem_parts hp) p rfl

/-- The names in the type that a text denotes, if what holds of a text holds of its parts: each is
what is left of such a text when its blanks are taken out. No tuple is empty. -/
theorem namedBy_ofChars {motive : List Char → Prop} {P : String → Prop}
    (hparts : ∀ cs shape, motive cs → Shape.Layer (Text.trim cs) shape →
      ∀ p ∈ shape.parts, motive p)
    (hname : ∀ cs, motive cs → Shape.Layer (Text.trim cs) (.name (Text.trim cs)) →
      P (String.ofList ((Text.trim cs).filter (!Text.isBlank ·))))
    (cs : List Char) (hcs : motive cs) : (ofChars cs).NamedBy P := by
  induction cs using layer_induction with
  | step cs shape hlayer ih =>
    have hall : ∀ p ∈ shape.parts, (ofChars p).NamedBy P :=
      fun p hp => ih p hp (hparts cs shape hcs hlayer p hp)
    rw [ofChars_eq, Shape.ofText_eq_iff.2 hlayer]
    cases shape with
    | blank => exact .any
    | group inner => exact hall inner (by simp [Shape.parts])
    | generic container element => exact .generic (hall element (by simp [Shape.parts]))
    | dict key value =>
      exact .dict (hall key (by simp [Shape.parts])) (hall value (by simp [Shape.parts]))
    -- a tuple comes of its word or of commas, and both give it an element
    | tuple elements =>
      refine .tuple ?_ (List.forall_mem_map.2 hall)
      generalize Text.trim cs = trimmed at hlayer
      cases hlayer with
      | @tuple _ operand _ =>
        rw [ne_eq, List.map_eq_nil_iff]
        exact TopLevel.splitFrom_ne_nil [','] 0 0 operand.text
      | commas => simp
    | name text =>
      obtain ⟨rfl, -⟩ := Shape.layer_name_iff.1 hlayer
      dsimp only
      obtain hany | ⟨p, hprimitive⟩ | hnamed := ofName_cases (Text.trim cs)
      · rw [hany]
        exact .any
      · rw [hprimitive]
        exact .primitive
      · rw [hnamed]
        exact .named (hname cs hcs hlayer)

/-- Names of types that texts denote are without blanks, and no tuple is empty. -/
theorem namedBy_isNormal (cs : List Char) : (ofChars cs).NamedBy IsNormal := by
  refine namedBy_ofChars (motive := fun _ => True) (fun _ _ _ _ _ _ => trivial) ?_ cs trivial
  intro cs _ hlayer
  exact ⟨_, Text.trimmed_trim cs, hlayer, String.toList_ofList⟩

/-- Taking blanks out of a text takes them out of its parts. -/
theorem splitFrom_filter (depth : Int) (cs : List Char) :
    TopLevel.splitFrom [','] 0 depth (cs.filter (!Text.isBlank ·)) =
      (TopLevel.splitFrom [','] 0 depth cs).map (·.filter (!Text.isBlank ·)) := by
  have hcut : ∀ (c : Char) (cs : List Char), ([','].isPrefixOf (c :: cs) = true) ↔ c = ',' := by
    intro c cs
    rw [List.isPrefixOf_iff_prefix, List.cons_prefix_cons, eq_comm, and_iff_left List.nil_prefix]
  have hfirst : ∀ {c : Char} {parts : List (List Char)}, parts ≠ [] →
      (Text.consFirst c parts).map (·.filter (!Text.isBlank ·)) =
        if Text.isBlank c then parts.map (·.filter (!Text.isBlank ·))
        else Text.consFirst c (parts.map (·.filter (!Text.isBlank ·))) := by
    intro c parts hne
    obtain ⟨p, rest, rfl⟩ := List.exists_cons_of_ne_nil hne
    by_cases hc : Text.isBlank c <;> simp [Text.consFirst, hc]
  induction cs generalizing depth with
  | nil => rfl
  | cons c cs ih =>
    rw [TopLevel.splitFrom]
    by_cases hc : Text.isBlank c = true
    -- a blank is neither a comma nor a bracket: it leaves the parts and the depth as they are
    · have hcomma : ¬(depth = 0 ∧ [','].isPrefixOf (c :: cs)) := by
        rw [hcut]
        rintro ⟨-, rfl⟩
        exact absurd hc (by decide)
      have hweight : TopLevel.weight c = 0 := by
        simp [TopLevel.weight, TopLevel.isOpening_eq_false hc (by decide) (by decide),
          TopLevel.isClosing_eq_false hc (by decide) (by decide)]
      rw [List.filter_cons_of_neg (by simp [hc]), if_neg hcomma,
        hfirst (TopLevel.splitFrom_ne_nil _ _ _ _), if_pos hc, hweight, Int.add_zero, ih]
    · rw [List.filter_cons_of_pos (by simp [hc]), TopLevel.splitFrom]
      simp only [hcut]
      split_ifs with hcomma
      · rw [List.map_cons, List.filter_nil, List.length_singleton, Nat.sub_self, ih]
      · rw [hfirst (TopLevel.splitFrom_ne_nil _ _ _ _), if_neg hc, ih]

/-- The first and the last character of a text without blanks around it are left when blanks are
taken out. -/
theorem exists_eq_of_filter_eq {text inner : List Char} {a b : Char} (htext : Text.Trimmed text)
    (hne : text ≠ []) (h : text.filter (!Text.isBlank ·) = a :: (inner ++ [b])) :
    ∃ outer, text = a :: (outer ++ [b]) ∧ inner = outer.filter (!Text.isBlank ·) := by
  obtain ⟨c, rest, rfl⟩ := List.exists_cons_of_ne_nil hne
  rw [List.filter_cons_of_pos (by simp [htext.head c rfl])] at h
  obtain ⟨rfl, hrest⟩ := List.cons.inj h
  clear h
  obtain rfl | ⟨outer, d, rfl⟩ := List.eq_nil_or_concat' rest
  · simp at hrest
  · have hd := htext.last d (by rw [← List.cons_append, List.getLast?_concat]; rfl)
    rw [List.filter_append, List.filter_cons_of_pos (by simp [hd]), List.filter_nil] at hrest
    obtain ⟨hinner, hlast⟩ := List.append_inj' hrest rfl
    obtain rfl := (List.cons.inj hlast).1
    exact ⟨outer, rfl, hinner.symm⟩

/-- A name without its blanks denotes itself when nothing else can be read in it. -/
theorem ofText_eq_named_iff {name : String} (h : IsNormal name) :
    ofText name = named name ↔ IsSettled name := by
  obtain ⟨text, htrimmed, hlayer, hname⟩ := h
  obtain ⟨-, hne, hgroup, -, hsplit⟩ := Shape.layer_name_iff.1 hlayer
  have hblanks : name.toList.filter (!Text.isBlank ·) = name.toList := by
    rw [hname, List.filter_filter, List.filter_congr fun _ _ => Bool.and_self _]
  constructor
  · intro h
    obtain ⟨hlayer, hdenotes⟩ := layer_of_ofText_eq_named h
    obtain ⟨hany, hspelling, -⟩ := ofName_eq_named_iff.1 hdenotes
    obtain ⟨-, -, -, hwords, -⟩ := Shape.layer_name_iff.1 hlayer
    rw [String.ofList_toList] at hany hspelling
    exact ⟨hany, hspelling, hwords⟩
  · intro h
    -- without its blanks the name has no group and no commas either
    have hlayer : Shape.Layer name.toList (.name name.toList) := by
      refine .name ?_ ?_ h.not_operand ?_
      · obtain ⟨c, text, rfl⟩ := List.exists_cons_of_ne_nil hne
        rw [hname, List.filter_cons_of_pos (by simp [htrimmed.head c rfl])]
        exact List.cons_ne_nil _ _
      · rw [Option.eq_none_iff_forall_ne_some]
        intro inner hinner
        obtain ⟨c, hc, hbalanced, heq⟩ := Shape.group?_eq_some_iff.1 hinner
        obtain ⟨outer, rfl, rfl⟩ := exists_eq_of_filter_eq htrimmed hne (hname.symm.trans heq)
        rw [Shape.group?_eq_some_iff.2 ⟨c, hc, balanced_filter_iff.1 hbalanced, rfl⟩] at hgroup
        cases hgroup
      · rw [TopLevel.split, hname, splitFrom_filter, ← TopLevel.split, hsplit]
        rfl
    have htrim : Text.Trimmed name.toList :=
      Text.trimmed_of_forall fun c hc => by simpa using List.filter_eq_self.1 hblanks c hc
    rw [ofText, ofChars_eq, Shape.ofText_of_layer htrim hlayer, ofName_eq_named_iff, hblanks,
      String.ofList_toList]
    exact ⟨h.ne_any, h.not_spelling, rfl⟩

/-! ## Forms that end in the same place -/

/-- A comma or a closing bracket, which no type ends without inside brackets. -/
def isStop (c : Char) : Bool := c == ',' || isClosing c

/-- A text begins with another, and a comma or a closing bracket follows. -/
def Stops (cs part : List Char) : Prop := ∃ d rest, isStop d = true ∧ cs = part ++ d :: rest

/-- A stop is no blank. -/
theorem isBlank_eq_false_of_isStop {c : Char} (h : isStop c = true) : Text.isBlank c = false := by
  rw [isStop, isClosing, Bool.or_eq_true, Bool.or_eq_true, beq_iff_eq, beq_iff_eq, beq_iff_eq] at h
  obtain rfl | rfl | rfl := h <;> decide

/-- What comes before both texts has no part in what follows them. -/
theorem stops_append_iff {a cs part : List Char} :
    Stops (a ++ cs) (a ++ part) ↔ Stops cs part := by
  simp [Stops, List.append_assoc]

/-- A text stops at a closing bracket after it. -/
theorem stops_of_isClosing {part more : List Char} {c : Char} (hc : isClosing c = true) :
    Stops (part ++ c :: more) part :=
  ⟨c, more, by rw [isStop, hc, Bool.or_true], rfl⟩

/-- A text that stops is the beginning of what it stops in. -/
theorem Stops.prefix {cs part : List Char} (h : Stops cs part) : part <+: cs := by
  obtain ⟨d, rest, -, rfl⟩ := h
  exact List.prefix_append part _

/-- The first part of a list stops at a comma or where the list stops. -/
theorem Stops.first {cs first : List Char} {others : List (List Char)}
    (h : Stops cs ([','].intercalate (first :: others))) : Stops cs first := by
  obtain ⟨d, rest, hd, rfl⟩ := h
  cases others with
  | nil => exact ⟨d, rest, hd, by rw [List.intercalate_singleton]⟩
  | cons second others =>
    refine ⟨',', [','].intercalate (second :: others) ++ d :: rest, by decide, ?_⟩
    rw [List.intercalate_cons_cons]
    simp

/-- When a text stops, the part before its first comma stops. -/
theorem Stops.of_split_eq {cs text first : List Char} {others : List (List Char)}
    (hsplit : TopLevel.split [','] text = first :: others) (h : Stops cs text) :
    Stops cs first := by
  rw [← TopLevel.intercalate_split (List.cons_ne_nil ',' []) text, hsplit] at h
  exact h.first

/-- The part before the first comma stops at it. -/
theorem Stops.of_split_eq_cons {cs text first second : List Char} {others : List (List Char)}
    (hsplit : TopLevel.split [','] text = first :: second :: others) (h : text <+: cs) :
    Stops cs first := by
  obtain ⟨more, rfl⟩ := h
  rw [← TopLevel.intercalate_split (List.cons_ne_nil ',' []) text, hsplit,
    List.intercalate_cons_cons]
  exact ⟨',', _, by decide, by simp only [List.append_assoc]; rfl⟩

/-- Lists of parts that stop in the same text are the same, when parts in the same place are. -/
theorem eq_of_stops {ps qs : List (List Char)}
    (h : List.Forall₂ (fun p q => ∀ cs, Stops cs p → Stops cs q → p = q) ps qs) :
    ∀ {cs}, Stops cs ([','].intercalate ps) → Stops cs ([','].intercalate qs) → ps = qs := by
  induction h with
  | nil => exact fun _ _ => rfl
  | @cons p q ps qs hpq hrest ih =>
    intro cs hps hqs
    obtain rfl := hpq cs hps.first hqs.first
    cases hrest with
    | nil => rfl
    | @cons p' q' ps qs _ _ =>
      rw [List.intercalate_cons_cons, List.append_assoc] at hps hqs
      obtain ⟨d, rest, hd, rfl⟩ := hps
      rw [List.append_assoc, stops_append_iff, List.append_assoc, stops_append_iff] at hqs
      rw [ih ⟨d, rest, hd, rfl⟩ hqs]

/-- A text that stops where a text without a blank at its beginning does has none there either. -/
theorem Stops.trimStart_eq {cs part : List Char} (h : Stops cs part)
    (hhead : ∀ c ∈ cs.head?, Text.isBlank c = false) : Text.trimStart part = part := by
  obtain ⟨d, rest, -, rfl⟩ := h
  cases part with
  | nil => rfl
  | cons c part =>
    rw [Text.trimStart, List.dropWhile_cons_of_neg]
    simp [hhead c rfl]

/-- Blanks at the beginning of texts that stop in the same text are the same. -/
theorem eq_append_of_stops {cs part blanks r : List Char} (hblanks : ∀ c ∈ blanks, Text.isBlank c)
    (hr : ∃ c r', r = c :: r' ∧ Text.isBlank c = false)
    (h : ∀ cs, Stops cs (Text.trimStart part) → Stops cs r → Text.trimStart part = r)
    (hpart : Stops cs part) (hplace : Stops cs (blanks ++ r)) : part = blanks ++ r := by
  obtain ⟨d, rest, hd, rfl⟩ := hpart
  obtain ⟨d', rest', hd', heq⟩ := hplace
  obtain ⟨c, r, rfl, hc⟩ := hr
  -- what follows the blanks of the part begins with no blank
  obtain ⟨e, tail, htail, he⟩ : ∃ e tail, Text.trimStart part ++ d :: rest = e :: tail ∧
      Text.isBlank e = false := by
    cases hstart : Text.trimStart part with
    | nil => exact ⟨d, rest, rfl, isBlank_eq_false_of_isStop hd⟩
    | cons e start =>
      have hhead := List.head?_dropWhile_not Text.isBlank part
      rw [← Text.trimStart, hstart] at hhead
      exact ⟨e, start ++ d :: rest, rfl, by simpa using hhead⟩
  have hpart : part = part.takeWhile Text.isBlank ++ Text.trimStart part :=
    List.takeWhile_append_dropWhile.symm
  rw [hpart, List.append_assoc, htail, List.append_assoc, List.cons_append] at heq
  obtain ⟨hsame, rfl, rfl⟩ := eq_of_append_cons_eq (p := Text.isBlank)
    (fun c hc => List.mem_takeWhile_imp hc) hblanks he hc heq
  rw [hpart, hsame, h _ ⟨d, rest, hd, htail.symm⟩ ⟨d', rest', hd', rfl⟩]

/-- The canonical form of a type that is not a name begins with a letter. -/
theorem exists_cons_eq_render_of_ne_named {e : TypeExpr} (h : ∀ name, e ≠ named name) :
    ∃ c rest, e.render.toList = c :: rest ∧ Text.isIdentifierChar c = true := by
  have hword : ∀ {word : String} {rest : List Char}, word ∈ words →
      ∃ c tail, word.toList ++ rest = c :: tail ∧ Text.isIdentifierChar c = true := by
    intro word rest hword
    obtain ⟨c, tail, htail⟩ := List.exists_cons_of_ne_nil (ne_nil_of_mem_words hword)
    exact ⟨c, tail ++ rest, by rw [htail, List.cons_append],
      isIdentifierChar_of_mem_words hword c (htail ▸ List.mem_cons_self)⟩
  cases e with
  | any => exact ⟨'A', _, rfl, by decide⟩
  | primitive p => cases p <;> exact ⟨_, _, rfl, by decide⟩
  | named name => exact absurd rfl (h name)
  | generic container element =>
    rw [toList_render_generic]
    exact hword container.keyword_mem_words
  | dict key value =>
    rw [toList_render_dict]
    exact hword (by decide)
  | tuple elements =>
    rw [toList_render_tuple]
    exact hword (by decide)

/-- The canonical form of a type does not begin with a blank. -/
theorem exists_cons_eq_render {e : TypeExpr} (h : e.NamedBy IsNormal) :
    ∃ c rest, e.render.toList = c :: rest ∧ Text.isBlank c = false := by
  by_cases hname : ∃ name, e = named name
  · obtain ⟨name, rfl⟩ := hname
    obtain ⟨text, htrimmed, hlayer, hfilter⟩ : IsNormal name := by cases h; assumption
    obtain ⟨-, hne, -⟩ := Shape.layer_name_iff.1 hlayer
    obtain ⟨c, text, rfl⟩ := List.exists_cons_of_ne_nil hne
    have hc := htrimmed.head c rfl
    exact ⟨c, _, hfilter.trans (List.filter_cons_of_pos (by simp [hc])), hc⟩
  · obtain ⟨c, rest, heq, hc⟩ := exists_cons_eq_render_of_ne_named (not_exists.1 hname)
    refine ⟨c, rest, heq, Bool.eq_false_iff.2 fun hblank => ?_⟩
    rw [Text.isIdentifierChar_eq_false_of_isBlank hblank] at hc
    cases hc

/-- The word of an operand is the one that the text begins with. -/
theorem word_eq_of_append_eq {word word' : String} (hword : word ∈ words) (hword' : word' ∈ words)
    {text more tail : List Char} {operand : Operand} (h : Operand.after? word text = some operand)
    (heq : text ++ more = word'.toList ++ '[' :: tail) : word = word' := by
  obtain ⟨c, rest, hc, rfl⟩ := Operand.exists_eq_of_after? h
  rw [List.append_assoc, List.cons_append] at heq
  exact String.toList_injective (eq_of_append_cons_eq (isIdentifierChar_of_mem_words hword)
    (isIdentifierChar_of_mem_words hword') hc (by decide) heq).1

/-- An operand of a text that continues with a bracket stands in brackets. -/
theorem exists_eq_bracketed {word : String} {text more tail : List Char} {operand : Operand}
    (h : Operand.after? word text = some operand)
    (heq : text ++ more = word.toList ++ '[' :: tail) :
    ∃ inner c, isClosing c = true ∧ TopLevel.Balanced inner ∧ operand = .bracketed inner ∧
      text = word.toList ++ '[' :: (inner ++ [c]) ∧ tail = inner ++ c :: more := by
  cases operand with
  | bracketed inner =>
    obtain ⟨c, hc, hbalanced, rfl⟩ := Operand.after?_eq_bracketed_iff.1 h
    refine ⟨inner, c, hc, hbalanced, rfl, rfl, ?_⟩
    rw [List.append_assoc, List.append_cancel_left_eq, List.cons_append, List.cons.injEq] at heq
    rw [← heq.2]
    simp
  | informal operand =>
    obtain ⟨b, rest, hb, rfl, -⟩ := Operand.after?_eq_informal_iff.1 h
    rw [List.append_assoc, List.append_cancel_left_eq, List.cons_append, List.cons.injEq] at heq
    rw [heq.1] at hb
    exact absurd hb (by decide)

/-- Where blanks are left out at the beginning only, those at the end are left. -/
theorem exists_trimStart_eq (cs : List Char) :
    ∃ blanks, Text.trimStart cs = Text.trim cs ++ blanks ∧ ∀ c ∈ blanks, Text.isBlank c := by
  refine ⟨(Text.trimStart cs).rtakeWhile Text.isBlank, ?_, fun c hc => List.mem_rtakeWhile_imp hc⟩
  rw [Text.trim, Text.trimEnd_eq, List.rdropWhile_append_rtakeWhile]

/-! ## Tuples without their word -/

/-- An opening, and further ones inside it. -/
def nested (opening : List Char) : Nat → List Char
  | 0 => opening
  | k + 1 => opening ++ nested opening k

/-- One opening more, inside the others. -/
theorem nested_append (opening : List Char) (k : Nat) :
    nested opening k ++ opening = nested opening (k + 1) := by
  induction k with
  | zero => rfl
  | succ k ih =>
    rw [nested, List.append_assoc, ih]
    rfl

/-- Openings inside each other begin with the first one. -/
theorem exists_nested_eq (opening : List Char) (k : Nat) :
    ∃ tail, nested opening k = opening ++ tail := by
  cases k with
  | zero => exact ⟨[], (List.append_nil opening).symm⟩
  | succ k => exact ⟨nested opening k, rfl⟩

/-- Openings inside each other have the characters of one of them. -/
theorem mem_of_mem_nested {opening : List Char} {k : Nat} {c : Char}
    (hc : c ∈ nested opening k) : c ∈ opening := by
  induction k with
  | zero => exact hc
  | succ k ih => exact (List.mem_append.1 hc).elim id ih

/-- The word of a tuple and the bracket after it. -/
def tupleOpening : List Char := "Tuple".toList ++ ['[']

/-- The word of a tuple and its bracket, before what stands in it. -/
theorem tupleOpening_append (cs : List Char) :
    tupleOpening ++ cs = "Tuple".toList ++ '[' :: cs := by
  unfold tupleOpening
  exact List.append_assoc _ ['['] cs

/-- No blank and no stop stands in the words of tuples. -/
theorem of_mem_nested {k : Nat} {c : Char} (hc : c ∈ nested tupleOpening k) :
    Text.isBlank c = false ∧ isStop c = false := by
  have hopening : tupleOpening.all (fun c => !Text.isBlank c && !isStop c) := by decide
  simpa using List.all_eq_true.1 hopening c (mem_of_mem_nested hc)

/-- A name does not stop in a text that begins with words of tuples and then with the name. -/
theorem not_prefix_of_name {k : Nat} {text more : List Char} {d : Char} (hd : isStop d = true) :
    ¬nested tupleOpening k ++ text.filter (!Text.isBlank ·) <+: text ++ d :: more := by
  intro h
  have hnested : (nested tupleOpening k).filter (!Text.isBlank ·) = nested tupleOpening k :=
    List.filter_eq_self.2 fun c hc => by simp [(of_mem_nested hc).1]
  have hne : nested tupleOpening k ≠ [] := by
    obtain ⟨tail, htail⟩ := exists_nested_eq tupleOpening k
    rw [htail]
    exact List.cons_ne_nil _ _
  have hsublist : ∀ {a b : List Char}, a <+: b →
      (a.filter (!Text.isBlank ·)).Sublist (b.filter (!Text.isBlank ·)) :=
    fun hab => hab.sublist.filter _
  obtain hlt | hle := Nat.lt_or_ge text.length
    (nested tupleOpening k ++ text.filter (!Text.isBlank ·)).length
  · -- the stop after the name would be a stop in the words
    have hstop : text ++ [d] <+: nested tupleOpening k ++ text.filter (!Text.isBlank ·) :=
      List.prefix_of_prefix_length_le ⟨more, by rw [List.append_assoc, List.singleton_append]⟩ h
        (by rwa [List.length_append, List.length_singleton])
    have hcount := (hsublist hstop).count_le d
    have hnone : (nested tupleOpening k).count d = 0 :=
      List.count_eq_zero_of_not_mem fun hmem => by simp [(of_mem_nested hmem).2] at hd
    rw [List.filter_append, List.filter_append, hnested, List.filter_filter, List.count_append,
      List.count_append, List.filter_cons_of_pos (by simp [isBlank_eq_false_of_isStop hd]),
      hnone] at hcount
    simp only [Bool.and_self, List.filter_nil, List.count_singleton_self] at hcount
    omega
  · have hsub := hsublist (List.prefix_of_prefix_length_le h (List.prefix_append text _) hle)
    have hlength := hsub.length_le
    have hpos := List.length_pos_iff.2 hne
    rw [List.filter_append, hnested, List.filter_filter, List.length_append] at hlength
    simp only [Bool.and_self] at hlength
    omega

/-- The canonical form of a tuple begins with that of its first element in a bracket. -/
theorem first_prefix_of_tuple (first : TypeExpr) (others : List TypeExpr) :
    tupleOpening ++ first.render.toList <+: (tuple (first :: others)).render.toList := by
  rw [toList_render_tuple, ← tupleOpening_append, List.prefix_append_right_inj]
  cases others with
  | nil =>
    rw [List.map_singleton, List.intercalate_singleton]
    exact List.prefix_append _ _
  | cons second others =>
    rw [List.map_cons, List.map_cons, List.intercalate_cons_cons, List.append_assoc,
      List.append_assoc]
    exact List.prefix_append _ _

/-- Inside openings of tuples, a tuple is one opening more before its first element. -/
theorem first_prefix_of_nested {k : Nat} {first : TypeExpr} {others : List TypeExpr}
    {cs : List Char} (h : nested tupleOpening k ++ (tuple (first :: others)).render.toList <+: cs) :
    nested tupleOpening (k + 1) ++ first.render.toList <+: cs := by
  rw [← nested_append, List.append_assoc]
  exact ((List.prefix_append_right_inj _).2 (first_prefix_of_tuple first others)).trans h

/-- A text that begins with the opening of a tuple does not begin with a blank. -/
theorem head_eq_of_nested {k : Nat} {r cs : List Char} (h : nested tupleOpening k ++ r <+: cs) :
    ∀ c ∈ cs.head?, Text.isBlank c = false := by
  obtain ⟨more, rfl⟩ := h
  obtain ⟨tail, htail⟩ := exists_nested_eq tupleOpening k
  intro c hc
  rw [htail] at hc
  obtain rfl := Option.some.inj hc
  decide

/-- A text that begins with words of tuples and then with what a text without form denotes does not
begin with that text and a stop. -/
theorem not_prefix_of_ofName {k : Nat} {text blanks rest : List Char} {d : Char} (hne : text ≠ [])
    (hhead : ∀ c ∈ text.head?, c = 'T') (hblanks : ∀ c ∈ blanks, Text.isBlank c)
    (hd : isStop d = true) :
    ¬nested tupleOpening k ++ (ofName text).render.toList <+: text ++ (blanks ++ d :: rest) := by
  obtain ⟨c, text, rfl⟩ := List.exists_cons_of_ne_nil hne
  obtain rfl := hhead c rfl
  intro hinitial
  obtain hname | ⟨p, hname⟩ | hname := ofName_cases ('T' :: text)
  · exact absurd (List.cons.inj (eq_of_ofName_eq_any hname)).1 (by decide)
  · have hother : ∀ entry ∈ Primitive.spellings, entry.1.toList.head? ≠ some 'T' := by decide
    exact absurd (by rw [String.toList_ofList]; rfl) (hother _ (mem_of_ofName_eq_primitive hname))
  · have hfilter : ('T' :: text).filter (!Text.isBlank ·) =
        ('T' :: text ++ blanks).filter (!Text.isBlank ·) := by
      rw [List.filter_append, Text.filter_eq_nil_of_isBlank hblanks, List.append_nil]
    rw [hname, render, String.toList_ofList, hfilter, ← List.append_assoc] at hinitial
    exact not_prefix_of_name hd hinitial

/-- Blanks up to a stop begin with a blank or a stop. -/
theorem isBlank_or_isStop_head {blanks rest tail : List Char} {c d : Char}
    (hblanks : ∀ c ∈ blanks, Text.isBlank c) (hd : isStop d = true)
    (h : blanks ++ d :: rest = c :: tail) : (Text.isBlank c || isStop c) = true := by
  rw [Bool.or_eq_true]
  cases blanks with
  | nil =>
    obtain ⟨rfl, -⟩ := List.cons.inj h
    exact .inr hd
  | cons e blanks =>
    obtain ⟨rfl, -⟩ := List.cons.inj h
    exact .inl (hblanks e List.mem_cons_self)

/-- No text stops in one that begins with words of tuples and then with the canonical form of what
the text denotes. -/
theorem not_prefix_of_stops (part : List Char) : ∀ k cs, Stops cs (Text.trimStart part) →
    ¬nested tupleOpening k ++ (ofChars part).render.toList <+: cs := by
  induction part using layer_induction with
  | step part shape hlayer ih =>
    intro k cs hstops hinitial
    obtain ⟨blanks, hstart, hblanks⟩ := exists_trimStart_eq part
    obtain ⟨d, rest, hd, rfl⟩ := hstops
    rw [ofChars_eq, Shape.ofText_eq_iff.2 hlayer, hstart, List.append_assoc] at hinitial
    clear hstart
    generalize Text.trim part = text at hlayer hinitial
    -- the text begins with the word of a tuple and a bracket
    obtain ⟨tail, htail⟩ : ∃ tail,
        text ++ (blanks ++ d :: rest) = "Tuple".toList ++ '[' :: tail := by
      obtain ⟨words', hwords'⟩ := exists_nested_eq tupleOpening k
      obtain ⟨more, hmore⟩ := hinitial
      rw [hwords'] at hmore
      exact ⟨_, by rw [← hmore, List.append_assoc, List.append_assoc]; rfl⟩
    have hhead : ∀ c ∈ text.head?, c = 'T' := by
      intro c hc
      obtain ⟨text, rfl⟩ := List.head?_eq_some_iff.1 hc
      exact (List.cons.inj htail).1
    cases hlayer with
    | blank => exact absurd (isBlank_or_isStop_head hblanks hd htail) (by decide)
    | @group _ inner hgroup =>
      obtain ⟨c, -, -, rfl⟩ := Shape.group?_eq_some_iff.1 hgroup
      exact absurd (hhead '(' rfl) (by decide)
    | @generic _ container operand hoperand =>
      exact container.keyword_ne_tuple
        (word_eq_of_append_eq container.keyword_mem_words (by decide) hoperand htail)
    | dict hoperand =>
      exact absurd (word_eq_of_append_eq (by decide) (by decide) hoperand htail) (by decide)
    | @tuple _ operand hoperand =>
      obtain ⟨inner, c, hc, -, rfl, rfl, rfl⟩ := exists_eq_bracketed hoperand htail
      obtain ⟨first, others, hsplit⟩ := List.exists_cons_of_ne_nil
        (TopLevel.splitFrom_ne_nil [','] 0 0 inner)
      rw [← TopLevel.split] at hsplit
      rw [Operand.text, hsplit] at hinitial ih
      have hfirst : Stops (inner ++ c :: (blanks ++ d :: rest)) first :=
        Stops.of_split_eq hsplit (stops_of_isClosing hc)
      have hnested : nested tupleOpening k ++ (ofChars first).render.toList <+:
          inner ++ c :: (blanks ++ d :: rest) := by
        have hlonger := first_prefix_of_nested hinitial
        rwa [nested, htail, ← tupleOpening_append, List.append_assoc,
          List.prefix_append_right_inj] at hlonger
      refine ih first (by simp [Shape.parts]) k _ ?_ hnested
      rwa [hfirst.trimStart_eq (head_eq_of_nested hnested)]
    | @commas _ first second others _ _ hsplit =>
      have hblank := head_eq_of_nested hinitial
      have hfirst := Stops.of_split_eq_cons hsplit (List.prefix_append text (blanks ++ d :: rest))
      refine ih first (by simp [Shape.parts]) (k + 1) _ ?_ (first_prefix_of_nested hinitial)
      rwa [hfirst.trimStart_eq hblank]
    | name hne => exact not_prefix_of_ofName hne hhead hblanks hd hinitial

/-! ## Forms in the same place -/

/-- A text stops with blanks after it only if there are none. -/
theorem eq_nil_of_stops {cs text blanks : List Char} (hblanks : ∀ c ∈ blanks, Text.isBlank c)
    (h : Stops cs (text ++ blanks)) (htext : Stops cs text) : blanks = [] := by
  obtain ⟨d, rest, hd, rfl⟩ := htext
  rw [stops_append_iff] at h
  cases blanks with
  | nil => rfl
  | cons c blanks =>
    obtain ⟨e, rest', -, heq⟩ := h
    obtain ⟨rfl, -⟩ := List.cons.inj heq
    have hblank := hblanks d List.mem_cons_self
    rw [isBlank_eq_false_of_isStop hd] at hblank
    cases hblank

/-- A name is the canonical form of what it denotes where that stands in the same place. -/
theorem eq_render_ofName {cs text : List Char} (hne : text ≠ []) (htext : text <+: cs)
    (h : Stops cs (ofName text).render.toList) : text = (ofName text).render.toList := by
  obtain hname | ⟨p, hname⟩ | hname := ofName_cases text
  · rw [hname]
    exact eq_of_ofName_eq_any hname
  · have hsame : ∀ entry ∈ Primitive.spellings,
        entry.1.toList.head? = entry.2.name.toList.head? → entry.1 = entry.2.name := by decide
    rw [hname, render] at h ⊢
    have heq := hsame _ (mem_of_ofName_eq_primitive hname) ?_
    · rw [← heq, String.toList_ofList]
    · obtain ⟨c, text, rfl⟩ := List.exists_cons_of_ne_nil hne
      obtain ⟨d, name, hcons⟩ : ∃ d name, p.name.toList = d :: name := by
        cases p <;> exact ⟨_, _, rfl⟩
      obtain ⟨more, rfl⟩ := htext
      obtain ⟨e, rest, -, heq⟩ := h
      rw [hcons] at heq
      rw [String.toList_ofList, hcons, (List.cons.inj heq).1]
      rfl
  · rw [hname, render, String.toList_ofList] at h ⊢
    obtain ⟨d, rest, hd, rfl⟩ := h
    refine (List.filter_sublist.eq_of_length_le (Nat.not_lt.1 fun hlt => ?_)).symm
    -- otherwise the stop would be one more character of the name
    have hinitial : text.filter (!Text.isBlank ·) ++ [d] <+: text :=
      List.prefix_of_prefix_length_le ⟨rest, by simp⟩ htext
        (by rwa [List.length_append, List.length_singleton])
    have hlength := (hinitial.sublist.filter (!Text.isBlank ·)).length_le
    rw [List.filter_append, List.filter_filter, List.length_append,
      List.filter_cons_of_pos (by simp [isBlank_eq_false_of_isStop hd])] at hlength
    simp only [Bool.and_self, List.filter_nil, List.length_singleton] at hlength
    omega

/-- A pair of parentheses does not stand where the canonical form of what it denotes stands. -/
theorem not_stops_of_group {cs inner : List Char} {c : Char} (hbalanced : TopLevel.Balanced inner)
    (hcs : '(' :: (inner ++ [c]) <+: cs) : ¬Stops cs (ofChars inner).render.toList := by
  rintro ⟨d, rest, hd, rfl⟩
  obtain ⟨name, hname⟩ : ∃ name, ofChars inner = named name := by
    by_contra hne
    obtain ⟨e, tail, heq, he⟩ := exists_cons_eq_render_of_ne_named (not_exists.1 hne)
    rw [heq] at hcs
    rw [← (List.cons_prefix_cons.1 hcs).1] at he
    exact absurd he (by decide)
  rw [hname, render] at hcs
  -- the name is balanced, since the text between the parentheses is
  obtain ⟨text, -, hdenotes, hplace⟩ := exists_layer_of_ofChars_eq_named hname
  obtain ⟨hlength, htext⟩ : text.length ≤ inner.length ∧ TopLevel.Balanced text := by
    obtain rfl | ⟨-, hlt, htext⟩ := hplace
    · refine ⟨Text.length_trim_le inner, ?_⟩
      rwa [← balanced_filter_iff, Text.filter_trim, balanced_filter_iff]
    · exact ⟨Nat.le_of_lt hlt, htext⟩
  obtain ⟨-, -, rfl⟩ := ofName_eq_named_iff.1 hdenotes
  rw [String.toList_ofList] at hcs
  have hshort := List.length_filter_le (!Text.isBlank ·) text
  have hbrackets := balanced_filter_iff.2 htext
  generalize text.filter (!Text.isBlank ·) = name at hcs hshort hbrackets
  cases name with
  | nil =>
    rw [← (List.cons_prefix_cons.1 hcs).1] at hd
    exact absurd hd (by decide)
  | cons e name =>
    -- what follows the first parenthesis closes it, and is the beginning of what it encloses
    obtain ⟨rfl, hinner⟩ := List.cons_prefix_cons.1 hcs
    obtain ⟨after, rfl⟩ := List.prefix_of_prefix_length_le (List.prefix_append name (d :: rest))
      ((List.prefix_append inner [c]).trans hinner) (by rw [List.length_cons] at hshort; omega)
    rw [TopLevel.Balanced, TopLevel.openAfter?_append, Option.bind_eq_some_iff] at hbalanced
    obtain ⟨depth, hdepth, -⟩ := hbalanced
    have hopen := TopLevel.openAfter?_add hdepth 1
    rw [TopLevel.Balanced, TopLevel.openAfter?, if_pos (by decide), hopen] at hbrackets
    cases hbrackets

/-- A text in brackets is the canonical form in the same place when what the brackets enclose is. -/
theorem exists_stops_of_bracketed {word : String} {text r cs : List Char} {operand : Operand}
    (h : Operand.after? word text = some operand) (htext : text <+: cs)
    (hr : Stops cs (word.toList ++ '[' :: (r ++ [']']))) :
    ∃ inner c more, operand = .bracketed inner ∧ isClosing c = true ∧
      Stops (inner ++ c :: more) r ∧
        (inner = r → text = word.toList ++ '[' :: (r ++ [']'])) := by
  obtain ⟨more, rfl⟩ := htext
  obtain ⟨d, rest, -, heq⟩ := hr
  rw [List.append_assoc, List.cons_append] at heq
  obtain ⟨inner, c, hc, -, rfl, rfl, htail⟩ := exists_eq_bracketed h heq
  refine ⟨inner, c, more, rfl, hc, ⟨']', d :: rest, by decide, by rw [← htail]; simp⟩, ?_⟩
  rintro rfl
  rw [List.append_assoc, List.append_cancel_left_eq] at htail
  obtain ⟨rfl, -⟩ := List.cons.inj htail
  rfl

/-- In brackets the key and the value of a dict are all of the operand, or there is no value. -/
theorem keyValue_bracketed (inner : List Char) :
    (Operand.bracketed inner).keyValue = (inner, []) ∨
      inner = [','].intercalate [(Operand.bracketed inner).keyValue.1,
        (Operand.bracketed inner).keyValue.2] := by
  rw [Operand.keyValue, Operand.dictSeparator, Operand.text]
  split
  · rename_i key value values hsplit
    right
    rw [← TopLevel.intercalate_split (List.cons_ne_nil ',' []) inner, hsplit]
    simp
  · exact .inl rfl

/-- Parts with commas between them are the canonical forms of what they denote, with a blank before
each but the first, where these stand in the same place. -/
theorem parts_eq_of_stops {first : List Char} {others : List (List Char)}
    (h : ∀ p ∈ first :: others, ∀ blanks, (∀ c ∈ blanks, Text.isBlank c) → ∀ cs, Stops cs p →
      Stops cs (blanks ++ (ofChars p).render.toList) → p = blanks ++ (ofChars p).render.toList)
    {cs : List Char} (hparts : Stops cs ([','].intercalate (first :: others)))
    (hrender : Stops cs ([',', ' '].intercalate
      ((first :: others).map fun p => (ofChars p).render.toList))) :
    first = (ofChars first).render.toList ∧
      others = others.map fun p => ' ' :: (ofChars p).render.toList := by
  rw [List.map_cons, intercalate_comma_blank, List.map_map] at hrender
  obtain ⟨hfirst, hothers⟩ := List.forall_mem_cons.1 h
  refine List.cons.inj (eq_of_stops (.cons (hfirst [] nofun) ?_) hparts hrender)
  rw [List.forall₂_map_right_iff, List.forall₂_same]
  exact fun p hp => hothers p hp [' '] (List.forall_mem_singleton.2 rfl)

/-- The key and the value of a dict are the canonical forms of what they denote, with a blank before
the second, where these stand in the same place. -/
theorem keyValue_eq_of_stops {inner more : List Char} {c : Char} (hc : isClosing c = true)
    (h : ∀ p ∈ [(Operand.bracketed inner).keyValue.1, (Operand.bracketed inner).keyValue.2],
      ∀ blanks, (∀ c ∈ blanks, Text.isBlank c) → ∀ cs, Stops cs p →
        Stops cs (blanks ++ (ofChars p).render.toList) → p = blanks ++ (ofChars p).render.toList)
    (hrender : Stops (inner ++ c :: more)
      ((ofChars (Operand.bracketed inner).keyValue.1).render.toList ++
        ([','] ++ ' ' :: (ofChars (Operand.bracketed inner).keyValue.2).render.toList))) :
    inner = [','].intercalate
        [(Operand.bracketed inner).keyValue.1, (Operand.bracketed inner).keyValue.2] ∧
      (Operand.bracketed inner).keyValue.1 =
        (ofChars (Operand.bracketed inner).keyValue.1).render.toList ∧
      (Operand.bracketed inner).keyValue.2 =
        ' ' :: (ofChars (Operand.bracketed inner).keyValue.2).render.toList := by
  have hstops : Stops (inner ++ c :: more) inner := stops_of_isClosing hc
  obtain hkeyValue | hinner := keyValue_bracketed inner
  · -- without a value the canonical form would go on where the brackets close
    rw [hkeyValue] at hrender h
    obtain ⟨d, rest, -, heq⟩ := hrender
    have hkey := h inner List.mem_cons_self [] nofun _ hstops
      ⟨',', _, by decide, by rw [heq]; simp only [List.append_assoc]; rfl⟩
    rw [List.nil_append] at hkey
    rw [← hkey, List.append_assoc, List.append_assoc, List.append_cancel_left_eq] at heq
    obtain ⟨rfl, -⟩ := List.cons.inj heq
    exact absurd hc (by decide)
  · rw [hinner] at hstops
    obtain ⟨hkey, hvalue⟩ := parts_eq_of_stops h hstops (by rw [← hinner]; simpa using hrender)
    exact ⟨hinner, hkey, List.singleton_inj.1 hvalue⟩

/-- In brackets the elements of a tuple are the canonical forms of what they denote, with a blank
before each but the first, where these stand in the same place. -/
theorem eq_elements_of_stops {inner more : List Char} {c : Char} (hc : isClosing c = true)
    (h : ∀ p ∈ TopLevel.split [','] inner, ∀ blanks, (∀ c ∈ blanks, Text.isBlank c) → ∀ cs,
      Stops cs p → Stops cs (blanks ++ (ofChars p).render.toList) →
        p = blanks ++ (ofChars p).render.toList)
    (hrender : Stops (inner ++ c :: more) ([',', ' '].intercalate
      ((TopLevel.split [','] inner).map fun p => (ofChars p).render.toList))) :
    inner = [',', ' '].intercalate
      ((TopLevel.split [','] inner).map fun p => (ofChars p).render.toList) := by
  have hstops : Stops (inner ++ c :: more) inner := stops_of_isClosing hc
  have hjoin := TopLevel.intercalate_split (List.cons_ne_nil ',' []) inner
  obtain ⟨first, others, hsplit⟩ := List.exists_cons_of_ne_nil
    (TopLevel.splitFrom_ne_nil [','] 0 0 inner)
  rw [← TopLevel.split] at hsplit
  rw [hsplit] at h hrender hjoin ⊢
  obtain ⟨hfirst, hothers⟩ := parts_eq_of_stops h (by rwa [hjoin]) hrender
  rw [List.map_cons, intercalate_comma_blank, List.map_map, Function.comp_def, ← hothers, ← hfirst,
    hjoin]

/-- A text is the canonical form of what it denotes where that stands in the same place. -/
theorem trimStart_eq_render (part : List Char) : ∀ cs, Stops cs (Text.trimStart part) →
    Stops cs (ofChars part).render.toList →
      Text.trimStart part = (ofChars part).render.toList := by
  induction part using layer_induction with
  | step part shape hlayer ih =>
    intro cs hpart hrender
    have hparts : ∀ p ∈ shape.parts, ∀ blanks, (∀ c ∈ blanks, Text.isBlank c) → ∀ cs, Stops cs p →
        Stops cs (blanks ++ (ofChars p).render.toList) →
          p = blanks ++ (ofChars p).render.toList :=
      fun p hp blanks hblanks cs => eq_append_of_stops hblanks
        (exists_cons_eq_render (namedBy_isNormal p)) (ih p hp)
    obtain ⟨blanks, hstart, hblanks⟩ := exists_trimStart_eq part
    rw [hstart] at hpart ⊢
    -- no blanks are left at the end, as the text stops where its canonical form does
    suffices htext : Text.trim part = (ofChars part).render.toList by
      rw [← htext] at hrender ⊢
      rw [eq_nil_of_stops hblanks hpart hrender, List.append_nil]
    have htext : Text.trim part <+: cs := (List.prefix_append _ blanks).trans hpart.prefix
    rw [ofChars_eq, Shape.ofText_eq_iff.2 hlayer] at hrender ⊢
    generalize Text.trim part = text at hlayer hpart htext ⊢
    cases hlayer with
    | blank =>
      obtain ⟨d, rest, hd, rfl⟩ := hpart
      obtain ⟨e, rest', -, heq⟩ := hrender
      exact absurd (isBlank_or_isStop_head hblanks hd heq) (by decide)
    -- parentheses do not stand in the canonical form of what they enclose
    | @group _ inner hgroup =>
      obtain ⟨c, -, hbalanced, rfl⟩ := Shape.group?_eq_some_iff.1 hgroup
      exact absurd hrender (not_stops_of_group hbalanced htext)
    | @generic _ container operand hoperand =>
      dsimp only at hrender ⊢
      rw [toList_render_generic] at hrender ⊢
      obtain ⟨inner, c, more, rfl, hc, hr, heq⟩ :=
        exists_stops_of_bracketed hoperand htext hrender
      exact heq (hparts inner (by simp [Shape.parts, Operand.text]) [] nofun _
        (stops_of_isClosing hc) hr)
    | @dict _ operand hoperand =>
      dsimp only at hrender ⊢
      rw [toList_render_dict] at hrender ⊢
      obtain ⟨inner, c, more, rfl, hc, hr, heq⟩ :=
        exists_stops_of_bracketed hoperand htext hrender
      apply heq
      obtain ⟨hinner, hkey, hvalue⟩ := keyValue_eq_of_stops hc hparts hr
      generalize (Operand.bracketed inner).keyValue = keyValue at *
      rw [hinner, List.intercalate_cons_cons, List.intercalate_singleton, ← hkey, ← hvalue,
        List.append_assoc]
    | @tuple _ operand hoperand =>
      dsimp only at hrender ⊢
      rw [toList_render_tuple] at hrender ⊢
      obtain ⟨inner, c, more, rfl, hc, hr, heq⟩ :=
        exists_stops_of_bracketed hoperand htext hrender
      apply heq
      rw [Operand.text, List.map_map] at hr ⊢
      exact eq_elements_of_stops hc hparts hr
    | @commas _ first second others _ _ hsplit =>
      have hnested := (first_prefix_of_tuple (ofChars first) _).trans hrender.prefix
      have hfirst := Stops.of_split_eq_cons hsplit htext
      refine absurd hnested (not_prefix_of_stops first 0 cs ?_)
      rwa [hfirst.trimStart_eq (head_eq_of_nested (k := 0) hnested)]
    | name hne => exact eq_render_ofName hne htext hrender

/-- A text that stops where its canonical form does is this form, apart from blanks before it. -/
theorem eq_append_render {cs part blanks : List Char} (hblanks : ∀ c ∈ blanks, Text.isBlank c)
    (hpart : Stops cs part) (hrender : Stops cs (blanks ++ (ofChars part).render.toList)) :
    part = blanks ++ (ofChars part).render.toList :=
  eq_append_of_stops hblanks (exists_cons_eq_render (namedBy_isNormal part))
    (trimStart_eq_render part) hpart hrender

/-! ## Canonical forms that are read back -/

/-- A text in brackets denotes a name or a list of types with commas, or its brackets are
balanced. -/
theorem balanced_of_ofChars_eq {word : String} (hword : word ∈ words) {r : List Char}
    {e : TypeExpr} (he : ofChars (word.toList ++ '[' :: (r ++ [']'])) = e)
    (hname : ∀ text, ofName text ≠ e)
    (htuple : ∀ first second others, TopLevel.split [','] (word.toList ++ '[' :: (r ++ [']'])) =
      first :: second :: others → tuple ((first :: second :: others).map ofChars) ≠ e) :
    TopLevel.Balanced r := by
  by_contra h
  -- were the brackets not balanced, no word of a container could take what is in them
  have hnone : ∀ word' ∈ words,
      Operand.after? word' (word.toList ++ '[' :: (r ++ [']'])) = none := by
    intro word' hword'
    rw [Option.eq_none_iff_forall_ne_some]
    intro operand hoperand
    obtain rfl := word_eq_of_append_eq hword' hword hoperand (List.append_nil _)
    obtain ⟨inner, c, -, hbalanced, -, -, heq⟩ := exists_eq_bracketed hoperand (List.append_nil _)
    exact h ((List.append_inj' heq rfl).1 ▸ hbalanced)
  have hletter : ∀ c ∈ (word.toList ++ '[' :: (r ++ [']'])).head?, Text.isIdentifierChar c := by
    intro c hc
    obtain ⟨d, tail, htail⟩ := List.exists_cons_of_ne_nil (ne_nil_of_mem_words hword)
    rw [htail] at hc
    obtain rfl := Option.some.inj hc
    exact isIdentifierChar_of_mem_words hword d (htail ▸ List.mem_cons_self)
  have hne : word.toList ++ '[' :: (r ++ [']']) ≠ [] := by simp
  have hlayer := Shape.layer_ofTrimmed (word.toList ++ '[' :: (r ++ [']']))
  rw [ofChars_eq, Shape.ofText_of_layer (trimmed_bracketed hword _) hlayer] at he
  generalize word.toList ++ '[' :: (r ++ [']']) = text at hnone hletter hne hlayer htuple he
  generalize Shape.ofTrimmed text = shape at hlayer he
  -- so only the layers without a word are left, and these are the ones named in the hypotheses
  cases hlayer with
  | blank => exact absurd rfl hne
  | group hgroup =>
    obtain ⟨c, -, -, rfl⟩ := Shape.group?_eq_some_iff.1 hgroup
    exact absurd (hletter '(' rfl) (by decide)
  | @generic _ container _ hoperand =>
    rw [hnone _ container.keyword_mem_words] at hoperand
    cases hoperand
  | dict hoperand =>
    rw [hnone _ (by decide)] at hoperand
    cases hoperand
  | tuple hoperand =>
    rw [hnone _ (by decide)] at hoperand
    cases hoperand
  | commas _ _ hsplit => exact htuple _ _ _ hsplit he
  | name => exact hname text he

/-- A name alone denotes no container, no dict and no tuple. -/
theorem ofName_ne {e : TypeExpr} (hany : e ≠ any) (hprimitive : ∀ p, e ≠ primitive p)
    (hnamed : ∀ name, e ≠ named name) (text : List Char) : ofName text ≠ e := by
  rintro rfl
  obtain h | ⟨p, h⟩ | h := ofName_cases text
  · exact hany h
  · exact hprimitive p h
  · exact hnamed _ h

/-- In balanced brackets the key of a dict is balanced. -/
theorem balanced_keyValue {inner : List Char} (h : TopLevel.Balanced inner) :
    TopLevel.Balanced (Operand.bracketed inner).keyValue.1 := by
  rw [Operand.keyValue, Operand.dictSeparator, Operand.text]
  split
  · rename_i key value values hsplit
    exact TopLevel.balanced_of_mem_split (by decide) (by decide) h (hsplit ▸ List.mem_cons_self)
  · exact h

section

variable {container : Container} {element key value : TypeExpr} {elements : List TypeExpr}

/-- The element of a container is read back with it. -/
theorem of_ofText_render_generic
    (h : ofText (generic container element).render = generic container element) :
    ofText element.render = element ∧ TopLevel.Balanced element.render.toList := by
  rw [ofText, toList_render_generic] at h
  have hword := container.keyword_mem_words
  have hbalanced := balanced_of_ofChars_eq hword h (ofName_ne (by simp) (by simp) (by simp))
    (by simp)
  rw [ofChars_of_container (trimmed_bracketed hword _)
    (Operand.after?_eq_bracketed_iff.2 ⟨']', by decide, hbalanced, rfl⟩)] at h
  exact ⟨(generic.inj h).2, hbalanced⟩

/-- The key and the value of a dict are read back with it. -/
theorem of_ofText_render_dict (h : ofText (dict key value).render = dict key value) :
    (ofText key.render = key ∧ TopLevel.Balanced key.render.toList) ∧
      (ofText value.render = value ∧ TopLevel.Balanced value.render.toList) := by
  rw [ofText, toList_render_dict] at h
  have hword : "Dict" ∈ words := by decide
  have hbalanced := balanced_of_ofChars_eq hword h (ofName_ne (by simp) (by simp) (by simp))
    (by simp)
  rw [ofChars_of_dict (trimmed_bracketed hword _)
    (Operand.after?_eq_bracketed_iff.2 ⟨']', by decide, hbalanced, rfl⟩)] at h
  generalize hinner : key.render.toList ++ ([','] ++ ' ' :: value.render.toList) = inner at *
  obtain ⟨rfl, rfl⟩ := dict.inj h
  have hplace : Stops (inner ++ [']']) inner := ⟨']', [], by decide, rfl⟩
  obtain ⟨-, hkey, hvalue⟩ := keyValue_eq_of_stops (by decide : isClosing ']' = true)
    (fun p _ blanks hblanks cs => eq_append_render hblanks) (by rwa [hinner])
  have hfirst := balanced_keyValue hbalanced
  rw [hkey] at hfirst
  rw [← hinner] at hbalanced
  refine ⟨⟨congrArg ofChars hkey.symm, hfirst⟩, ?_, ?_⟩
  · exact (ofChars_blank_cons _).symm.trans (congrArg ofChars hvalue.symm)
  · exact TopLevel.Balanced.of_append (a := [',', ' ']) (hbalanced.of_append hfirst) (by decide)

/-- The elements of a tuple are read back with it. -/
theorem of_ofText_render_tuple (h : ofText (tuple elements).render = tuple elements) :
    ∀ e ∈ elements, ofText e.render = e ∧ TopLevel.Balanced e.render.toList := by
  rw [ofText, toList_render_tuple] at h
  have hword : "Tuple" ∈ words := by decide
  have hbalanced := balanced_of_ofChars_eq hword h (ofName_ne (by simp) (by simp) (by simp)) (by
    -- the list of types would begin with the word of the tuple
    rintro first second others hsplit heq
    obtain rfl := tuple.inj heq
    have hnested := first_prefix_of_tuple (ofChars first) ((second :: others).map ofChars)
    rw [toList_render_tuple] at hnested
    have hfirst := Stops.of_split_eq_cons hsplit (List.prefix_refl _)
    refine not_prefix_of_stops first 0 _ ?_ hnested
    rwa [hfirst.trimStart_eq (head_eq_of_nested (k := 0) hnested)])
  rw [ofChars_of_tuple (trimmed_bracketed hword _)
    (Operand.after?_eq_bracketed_iff.2 ⟨']', by decide, hbalanced, rfl⟩), Operand.text] at h
  generalize hinner : [',', ' '].intercalate (elements.map (·.render.toList)) = inner at *
  obtain ⟨first, others, hsplit⟩ := List.exists_cons_of_ne_nil
    (TopLevel.splitFrom_ne_nil [','] 0 0 inner)
  rw [← TopLevel.split] at hsplit
  have hjoin := TopLevel.intercalate_split (List.cons_ne_nil ',' []) inner
  have hparts := fun p => TopLevel.balanced_of_mem_split (s := ',') (p := p) (by decide)
    (by decide) hbalanced
  rw [hsplit] at h hjoin hparts
  obtain rfl := tuple.inj h
  rw [List.map_map] at hinner
  have hplace : Stops (inner ++ [']']) inner := ⟨']', [], by decide, rfl⟩
  obtain ⟨hfirst, hothers⟩ := parts_eq_of_stops
    (fun p _ blanks hblanks cs => eq_append_render hblanks) (hjoin.symm ▸ hplace)
    (Eq.subst (motive := Stops (inner ++ [']'])) hinner.symm hplace)
  rw [List.map_cons, List.forall_mem_cons, List.forall_mem_map]
  rw [List.forall_mem_cons] at hparts
  refine ⟨⟨congrArg ofChars hfirst.symm, hfirst ▸ hparts.1⟩, fun p hp => ?_⟩
  have heq : p = ' ' :: (ofChars p).render.toList :=
    List.map_inj_left.1 ((List.map_id others).trans hothers) p hp
  have hbalanced := hparts.2 p hp
  rw [heq] at hbalanced
  refine ⟨(ofChars_blank_cons _).symm.trans (congrArg ofChars heq.symm), ?_⟩
  exact TopLevel.Balanced.of_append (a := [' ']) hbalanced (by decide)

end

/-- Two properties that all names have, they have together. -/
theorem NamedBy.and {P Q : String → Prop} {e : TypeExpr} (hp : e.NamedBy P) (hq : e.NamedBy Q) :
    e.NamedBy fun name => P name ∧ Q name := by
  induction hp with
  | any => exact .any
  | primitive => exact .primitive
  | named hname =>
    cases hq with
    | named hname' => exact .named ⟨hname, hname'⟩
  | generic _ ih =>
    cases hq with
    | generic hq => exact .generic (ih hq)
  | dict _ _ ihkey ihvalue =>
    cases hq with
    | dict hkey hvalue => exact .dict (ihkey hkey) (ihvalue hvalue)
  | tuple hne _ ih =>
    cases hq with
    | tuple _ hq => exact .tuple hne fun e he => ih e he (hq e he)

/-- A type with names that denote themselves. When it is not a name by itself, their brackets are
balanced. -/
structure IsLegible (e : TypeExpr) : Prop where
  settled : e.NamedBy IsSettled
  balanced : (∃ name, e = named name) ∨ e.NamedBy (TopLevel.Balanced ·.toList)

/-- The names of a legible type are balanced when its canonical form is. -/
theorem IsLegible.namedBy_balanced {e : TypeExpr} (h : e.IsLegible)
    (hrender : TopLevel.Balanced e.render.toList) : e.NamedBy (TopLevel.Balanced ·.toList) := by
  obtain ⟨name, rfl⟩ | hbalanced := h.balanced
  · exact .named hrender
  · exact hbalanced

/-- A type that is read back is legible. -/
theorem isLegible_of_ofText_render {e : TypeExpr} (hnormal : e.NamedBy IsNormal)
    (h : ofText e.render = e) : e.IsLegible := by
  induction hnormal with
  | any => exact ⟨.any, .inr .any⟩
  | primitive => exact ⟨.primitive, .inr .primitive⟩
  | named hname => exact ⟨.named ((ofText_eq_named_iff hname).1 h), .inl ⟨_, rfl⟩⟩
  | generic _ ih =>
    obtain ⟨helement, hbalanced⟩ := of_ofText_render_generic h
    have hlegible := ih helement
    exact ⟨.generic hlegible.settled, .inr (.generic (hlegible.namedBy_balanced hbalanced))⟩
  | dict _ _ ihkey ihvalue =>
    obtain ⟨⟨hkey, hbalanced⟩, hvalue, hbalanced'⟩ := of_ofText_render_dict h
    have hlegible := ihkey hkey
    have hlegible' := ihvalue hvalue
    exact ⟨.dict hlegible.settled hlegible'.settled,
      .inr (.dict (hlegible.namedBy_balanced hbalanced) (hlegible'.namedBy_balanced hbalanced'))⟩
  | tuple hne _ ih =>
    have helements := of_ofText_render_tuple h
    have hlegible := fun e he => ih e he (helements e he).1
    exact ⟨.tuple hne fun e he => (hlegible e he).settled,
      .inr (.tuple hne fun e he => (hlegible e he).namedBy_balanced (helements e he).2)⟩

/-- The canonical form of what a text denotes is read back when what the text denotes is legible,
and only then. -/
theorem ofText_render_ofText_iff (text : String) :
    ofText (ofText text).render = ofText text ↔ (ofText text).IsLegible := by
  have hnormal : (ofText text).NamedBy IsNormal := namedBy_isNormal text.toList
  constructor
  · exact isLegible_of_ofText_render hnormal
  · rintro ⟨hsettled, ⟨name, hname⟩ | hbalanced⟩
    · rw [hname] at hnormal hsettled ⊢
      cases hnormal with
      | named hnormal =>
      cases hsettled with
      | named hsettled => exact (ofText_eq_named_iff hnormal).2 hsettled
    · exact ofText_render (((hnormal.and hsettled).and hbalanced).imp fun name h =>
        ⟨(ofText_eq_named_iff h.1.1).2 h.1.2, h.2⟩)

/-- A name with a blank in it becomes the word for any type. -/
theorem ofText_render_ofText_ne_of_blank : ofText (ofText "An y").render ≠ ofText "An y" := by
  have hname : ofText "An y" = named "Any" := by
    have hshape : Shape.ofText "An y".toList = .name "An y".toList := by decide
    rw [ofText, ofChars_eq, hshape]
    rfl
  have hany : ofText "Any" = any := by
    rw [ofText, ofChars_of_isIdentifier (by decide)]
    rfl
  rw [hname, render, hany]
  simp

end TypeExpr

end NoteCheck.Signature
