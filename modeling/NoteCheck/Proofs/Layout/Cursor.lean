/-
# Reading as moves of a cursor

Where reading stands in a text can be told by a cursor that is moved by hand. A cursor that is moved
over what stands at it leaves the rest of the text behind it, whether the move is by the text or, on
one line, by its bytes. The main statement, `Reader.Reads.exists_cursor_eq`: reading on by some
steps moves the cursor over the text that is read.
-/
import NoteCheck.Code.ByteCursor
import NoteCheck.Proofs.Layout.Coverage

namespace NoteCheck.Code

theorem utf8ByteSize_ofList (text : List Char) :
    (String.ofList text).utf8ByteSize = byteLength text := by
  induction text with
  | nil => rfl
  | cons c text ih =>
    rw [String.ofList_cons, String.utf8ByteSize_append, String.utf8ByteSize_singleton, ih,
      byteLength_cons]

/-- On one line a place moves on by bytes. -/
theorem Position.advance_of_notMem (p : Position) {text : List Char} (h : '\n' ∉ text) :
    p.advance text = ⟨p.line, p.column + byteLength text⟩ := by
  induction text generalizing p with
  | nil => rfl
  | cons c text ih =>
    rw [List.mem_cons, not_or] at h
    rw [advance_cons, ih _ h.2, next, if_neg (Ne.symm h.1), byteLength_cons, Nat.add_assoc]

namespace ByteCursor

/-- The bytes of a text that stands at the beginning are dropped with it. -/
theorem dropBytes_byteLength (text rest : List Char) :
    dropBytes (byteLength text) (text ++ rest) = (rest, 0) := by
  induction text with
  | nil =>
    cases rest with
    | nil => rfl
    | cons c rest =>
      have hpos := Char.utf8Size_pos c
      rw [List.nil_append, byteLength_nil, dropBytes, if_neg (by omega)]
  | cons c text ih =>
    rw [List.cons_append, byteLength_cons, dropBytes, if_pos (Nat.le_add_right _ _),
      Nat.add_sub_cancel_left, ih]

/-- A cursor that is moved over what stands at it stands before the rest of the text. -/
theorem advanceOver_ofList (text rest : List Char) (p : Position) :
    advanceOver { rest := text ++ rest, here := p } (String.ofList text) =
      { rest, here := p.advance text } := by
  rw [advanceOver, moveTo, utf8ByteSize_ofList, String.toList_ofList]
  dsimp only
  rw [Nat.zero_add, dropBytes_byteLength]

/-- On one line a move by bytes is a move over the text that they encode. -/
theorem advanceBytes_byteLength {text : List Char} (h : '\n' ∉ text) (rest : List Char)
    (p : Position) : advanceBytes { rest := text ++ rest, here := p } (byteLength text) =
      advanceOver { rest := text ++ rest, here := p } (String.ofList text) := by
  rw [advanceOver_ofList, advanceBytes, moveTo, p.advance_of_notMem h]
  dsimp only
  rw [Nat.zero_add, dropBytes_byteLength]

end ByteCursor

namespace Reader

/-- A cursor where a reader stands. -/
def cursor (r : Reader) : ByteCursor := { rest := r.rest, here := r.here }

/-- A token other than a string literal has the part of the text that is measured at the cursor. -/
theorem spanOf_eq_cursor_spanOf {r : Reader} {kind : TokenKind} (text : List Char)
    (hkind : ¬(kind = .string ∨ kind = .formattedString)) :
    r.spanOf kind text = r.cursor.spanOf (String.ofList text) := by
  rw [spanOf, if_neg hkind, ByteCursor.spanOf, String.toList_ofList]
  rfl

/-- A reader has read a text and stands behind it. -/
structure HasRead (r next : Reader) (text : List Char) : Prop where
  rest : r.rest = text ++ next.rest
  here : next.here = r.here.advance text

theorem HasRead.refl (r : Reader) : HasRead r r [] := ⟨rfl, rfl⟩

theorem HasRead.trans {r next last : Reader} {a b : List Char} (h : HasRead r next a)
    (h' : HasRead next last b) : HasRead r last (a ++ b) where
  rest := by rw [h.rest, h'.rest, List.append_assoc]
  here := by rw [h'.here, h.here, Position.advance_append]

/-- A reader that has read a text has a cursor that is moved over it. -/
theorem HasRead.cursor_eq {r next : Reader} {text : List Char} (h : HasRead r next text) :
    next.cursor = r.cursor.advanceOver (String.ofList text) := by
  rw [cursor, cursor, h.rest, h.here, ByteCursor.advanceOver_ofList]

variable {r next last : Reader} {found : List Token}

/-- Entering a line reads its indentation. -/
theorem exists_hasRead_of_enterLine (h : r.enterLine = .ok (found, next)) :
    ∃ text, HasRead r next text := by
  obtain ⟨-, -, rfl⟩ | ⟨-, -, hsame⟩ := (enterLine_eq_ok.1 h).eq_or_sameLine
  · exact ⟨[], .refl next⟩
  · refine ⟨r.rest.takeWhile isIndent, ?_, hsame.here⟩
    rw [hsame.rest]
    exact List.takeWhile_append_dropWhile.symm

/-- A lexeme is read as a whole. -/
theorem exists_hasRead_of_lexeme (h : r.lexeme = .ok (found, next)) :
    ∃ text, HasRead r next text := by
  obtain ⟨l, rest, hnext, htake⟩ | ⟨-, -, rfl⟩ := lexeme_eq_ok.1 h
  · obtain ⟨-, hrest⟩ := Lexeme.next?_eq_some hnext
    cases take_eq_iff.1 htake with
    | token | lineEnd | lineBreak | gap => exact ⟨_, hrest.symm, rfl⟩
  · exact ⟨[], .refl next⟩

/-- A step reads the indentation of a line and a lexeme. -/
theorem exists_hasRead_of_step (h : r.step = .ok (found, next)) : ∃ text, HasRead r next text := by
  obtain ⟨layout, entered, taken, hline, hlexeme, -⟩ := step_eq_ok_iff.1 h
  obtain ⟨blanks, hblanks⟩ := exists_hasRead_of_enterLine hline
  obtain ⟨text, htext⟩ := exists_hasRead_of_lexeme hlexeme
  exact ⟨blanks ++ text, hblanks.trans htext⟩

/-- Some steps read one text after the other. -/
theorem Reads.exists_hasRead (h : r.Reads found last) : ∃ text, HasRead r last text := by
  induction h with
  | @refl r => exact ⟨[], .refl r⟩
  | step _ hstep _ ih =>
    obtain ⟨first, hfirst⟩ := exists_hasRead_of_step hstep
    obtain ⟨rest, hrest⟩ := ih
    exact ⟨first ++ rest, hfirst.trans hrest⟩

/-- Reading on by some steps moves the cursor over the text that is read. -/
theorem Reads.exists_cursor_eq (h : r.Reads found last) : ∃ text, r.rest = text ++ last.rest ∧
    last.cursor = r.cursor.advanceOver (String.ofList text) := by
  obtain ⟨text, htext⟩ := h.exists_hasRead
  exact ⟨text, htext.rest, htext.cursor_eq⟩

end Reader

end NoteCheck.Code
