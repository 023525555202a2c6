/-
# Parentheses around texts

Parentheses around a whole text make no difference to the type that it denotes, and those around
the parts of a text are no such parentheses, although the text begins and ends with one. The main
statement: `ofText_parenthesised_and_ofText_intercalate`.
-/
import NoteCheck.Proofs.Signature.RoundTrip

namespace NoteCheck.Signature

open TopLevel

/-! ## Parentheses around parts -/

namespace Shape

/-- A text that a comma divides is not in parentheses as a whole. -/
theorem group?_eq_none_of_split {text first second : List Char} {rest : List (List Char)}
    (h : split [','] text = first :: second :: rest) : group? text = none := by
  rw [Option.eq_none_iff_forall_ne_some]
  intro inner hgroup
  obtain ⟨c, -, hbalanced, rfl⟩ := group?_eq_some_iff.1 hgroup
  have hsole := (hbalanced.uncut_enclosed (c := c) (o := '(') (by decide) (by decide)
    (List.cons_ne_nil ',' [])).split_eq
  rw [hsole] at h
  exact List.cons_ne_nil _ _ (List.cons.inj h).2.symm

/-- A text that begins with a parenthesis and that a comma divides is a tuple. -/
theorem layer_tuple_of_split {text first second : List Char} {rest : List (List Char)}
    (hhead : text.head? = some '(') (h : split [','] text = first :: second :: rest) :
    Layer text (.tuple (split [','] text)) := by
  rw [h]
  refine .commas (group?_eq_none_of_split h) (fun word hword => ?_) h
  rw [Option.eq_none_iff_forall_ne_some]
  intro operand hoperand
  exact Operand.head?_ne_of_after? hword hoperand hhead

end Shape

namespace TypeExpr

/-- Balanced texts, each in parentheses, with commas between them are a tuple. -/
theorem ofChars_intercalate_parenthesised {ts : List (List Char)} (hlength : 2 ≤ ts.length)
    (h : ∀ t ∈ ts, Balanced t) :
    ofChars ([',', ' '].intercalate (ts.map parenthesised)) = tuple (ts.map ofChars) := by
  have hne : ts.map parenthesised ≠ [] := by
    intro hnil
    rw [List.map_eq_nil_iff.1 hnil] at hlength
    cases hlength
  have htypes := map_ofChars_split hne (List.forall_mem_map.2 fun t ht =>
    ⟨uncut_parenthesised (by decide) (List.cons_ne_nil _ _) (h t ht),
      balanced_parenthesised (h t ht)⟩)
  obtain ⟨htrimmed, -⟩ := trimmed_intercalate hne (List.forall_mem_map.2 fun t _ =>
    ⟨trimmed_parenthesised t, parenthesised_ne_nil t⟩)
  have hhead : ([',', ' '].intercalate (ts.map parenthesised)).head? = some '(' := by
    match ts, hlength with
    | t :: u :: ts, _ => rw [List.map_cons, List.map_cons, List.intercalate_cons_cons]; rfl
  generalize [',', ' '].intercalate (ts.map parenthesised) = text at htypes htrimmed hhead
  -- There are as many parts as texts, so a comma divides the whole.
  have hparts := congrArg List.length htypes
  rw [List.length_map, List.length_map, List.length_map] at hparts
  match hsplit : split [','] text with
  | [] | [_] =>
    rw [hsplit] at hparts
    simp only [List.length_cons, List.length_nil] at hparts
    omega
  | first :: second :: rest =>
    rw [ofChars_eq, Shape.ofText_of_layer htrimmed (Shape.layer_tuple_of_split hhead hsplit)]
    dsimp only
    rw [htypes, List.map_map]
    exact congrArg tuple (List.map_congr_left fun t ht => ofChars_parenthesised (h t ht))

/-- Parentheses around a balanced text make no difference, and several balanced texts, each in
parentheses, are a tuple of what they denote. In any text, the parentheses that are taken off are a
first one and a last bracket that closes it, counted over all brackets between them. -/
theorem ofText_parenthesised_and_ofText_intercalate :
    (∀ t : String, Balanced t.toList → ofText ("(" ++ t ++ ")") = ofText t) ∧
      (∀ ts : List String, 2 ≤ ts.length → (∀ t ∈ ts, Balanced t.toList) →
        ofText (", ".intercalate (ts.map fun t => "(" ++ t ++ ")")) = tuple (ts.map ofText)) ∧
      ∀ raw inner, Shape.ofText raw = .group inner ↔ ∃ c, isClosing c = true ∧
        (height inner = 0 ∧ ∀ a, a <+: inner → 0 ≤ height a) ∧
        Text.trim raw = '(' :: (inner ++ [c]) := by
  have htext : ∀ t : String, ("(" ++ t ++ ")").toList = parenthesised t.toList := by
    intro t
    rw [String.toList_append, String.toList_append]
    rfl
  refine ⟨fun t ht => ?_, fun ts hlength h => ?_, fun raw inner => ?_⟩
  · rw [ofText, htext, ofChars_parenthesised ht, ofText]
  · have hchars : 2 ≤ (ts.map String.toList).length := by rwa [List.length_map]
    have htexts := ofChars_intercalate_parenthesised hchars (List.forall_mem_map.2 h)
    rw [List.map_map, List.map_map] at htexts
    rw [ofText, String.toList_intercalate, List.map_map]
    simp only [Function.comp_def, htext]
    exact htexts
  · simp only [Shape.ofText_eq_iff, Shape.layer_group_iff, Shape.group?_eq_some_iff, balanced_iff]

/-- The first text is in parentheses as a whole, the second only in its parts. -/
theorem ofText_parenthesised_and_ofText_intercalate_of_pair :
    Balanced "(Int), [Größe]".toList ∧ ofText "((Int), [Größe])" = ofText "(Int), [Größe]" ∧
      Balanced "Int".toList ∧ Balanced "Größe, (Int)".toList ∧
      ofText "(Int), (Größe, (Int))" = tuple [ofText "Int", ofText "Größe, (Int)"] := by
  have hfirst : Balanced "Int".toList := by decide
  have hsecond : Balanced "Größe, (Int)".toList := by decide
  have hwhole : Balanced "(Int), [Größe]".toList := by decide
  refine ⟨hwhole, ofText_parenthesised_and_ofText_intercalate.1 _ hwhole, hfirst, hsecond, ?_⟩
  exact ofText_parenthesised_and_ofText_intercalate.2.1 ["Int", "Größe, (Int)"] (Nat.le_refl 2)
    (List.forall_mem_cons.2 ⟨hfirst, List.forall_mem_singleton.2 hsecond⟩)

end TypeExpr

end NoteCheck.Signature
