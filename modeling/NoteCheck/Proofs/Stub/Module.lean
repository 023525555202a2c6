/-
# Stub modules as code

A stub module is read as what it declares, and then as the code at its end. The main statement,
`parse_render_iff`: this is so just if the first line of the code that is not blank holds a token.
-/
import NoteCheck.Proofs.Signature.Declarations
import NoteCheck.Proofs.Stub.Appended
import NoteCheck.Stub

namespace NoteCheck

namespace Code

variable {line : Nat} {rows more : List Row} {body others : List Stmt} {a b : Stmt}

/-! ## Names -/

/-- An identifier that is no reserved word. -/
structure IsName (word : String) : Prop where
  isIdentifier : Text.isIdentifier word.toList = true
  ofWord : TokenKind.ofWord word = .identifier

/-- The characters of identifiers may stand in a name, and all but digits may begin one. -/
theorem Word.isPart_of_isIdentifierChar {c : Char} (h : Text.isIdentifierChar c = true) :
    isPart c = true ∧ (c.isDigit = false → isStart c = true) := by
  rw [Text.isIdentifierChar, Char.isAlphanum, Bool.or_eq_true, Bool.or_eq_true] at h
  obtain (h | h) | h := h
  · have hascii : c.toNat < 0x80 := by
      delta Char.isAlpha Char.isUpper Char.isLower at h
      simp only [Bool.or_eq_true, Bool.and_eq_true,
        decide_eq_true_eq, ge_iff_le, UInt32.le_iff_toNat_le] at h
      rw [Char.toNat]
      have hbounds : 'A'.val.toNat = 65 ∧ 'Z'.val.toNat = 90 ∧ 'a'.val.toNat = 97 ∧
        'z'.val.toNat = 122 := ⟨rfl, rfl, rfl, rfl⟩
      omega
    have hletter : isStart c = true := by rw [isStart, Text.isLetter_of_ascii hascii, h]; rfl
    exact ⟨isPart_of_isStart hletter, fun _ => hletter⟩
  · have hascii : c.toNat < 0x80 := by
      simp only [Char.isDigit, Bool.and_eq_true, decide_eq_true_eq, ge_iff_le,
        UInt32.le_iff_toNat_le] at h
      rw [Char.toNat]
      have hbounds : '0'.val.toNat = 48 ∧ '9'.val.toNat = 57 := ⟨rfl, rfl⟩
      omega
    refine ⟨?_, fun hdigit => absurd h (Bool.eq_false_iff.1 hdigit)⟩
    rw [isPart, Text.isNumeral_of_ascii hascii, h, Bool.or_true]
    rfl
  · have hscore : isStart c = true := by rw [isStart, h, Bool.or_true]
    exact ⟨isPart_of_isStart hscore, fun _ => hscore⟩

/-- An identifier is a word as a whole: its own, or a name. -/
theorem isWord_ofWord {word : String} (h : Text.isIdentifier word.toList = true) :
    IsWord word (TokenKind.ofWord word) := by
  obtain ⟨hchars, hne, hdigit⟩ := Text.isIdentifier_iff.1 h
  have hstring : StringLiteral.read? word.toList = none := by
    have hquotes : word.toList.all (fun c => c != '"' && c != '\'') = true :=
      List.all_eq_true.2 fun c hc =>
        Word.not_quote_of_isPart (Word.isPart_of_isIdentifierChar (hchars c hc)).1
    have hnone := StringLiteral.read?_append_eq_none hquotes hne .nil
    rwa [List.append_nil] at hnone
  -- the reader of words takes all of it, since its characters are those of identifiers
  have hread : Word.read? word.toList = some (word.toList, []) := by
    obtain ⟨c, cs, hcs⟩ := List.exists_cons_of_ne_nil hne
    rw [hcs] at hchars hdigit ⊢
    obtain ⟨hc, hcs⟩ := List.forall_mem_cons.1 hchars
    have hparts : ∀ d ∈ cs, Word.isPart d = true :=
      fun d hd => (Word.isPart_of_isIdentifierChar (hcs d hd)).1
    have htake : cs.takeWhile Word.isPart = cs := List.takeWhile_eq_self_iff.2 hparts
    have hdrop : cs.dropWhile Word.isPart = [] := List.dropWhile_eq_nil_iff.2 hparts
    rw [Word.read?, if_pos ((Word.isPart_of_isIdentifierChar hc).2 (hdigit c rfl)), Split.run,
      htake, hdrop]
    rfl
  have hkind : TokenKind.ofWord word ≠ .string ∧ TokenKind.ofWord word ≠ .formattedString := by
    have hwords : ∀ m ∈ TokenKind.reservedWords, m.2 ≠ .string ∧ m.2 ≠ .formattedString := by
      decide
    rw [TokenKind.ofWord]
    cases hlookup : TokenKind.reservedWords.lookup word with
    | none => exact ⟨by decide, by decide⟩
    | some kind =>
      obtain ⟨before, after, hmem, -⟩ := List.lookup_eq_some_iff.1 hlookup
      exact hwords (word, kind) (by rw [hmem]; simp)
  refine ⟨?_, hkind.1, hkind.2⟩
  rw [Lexeme.next?, hstring, hread]
  show some (Lexeme.token (TokenKind.ofWord (String.ofList word.toList)) _, _) = _
  rw [String.ofList_toList]

/-- A name is a word as a whole. -/
theorem IsName.isWord {word : String} (h : IsName word) : IsWord word .identifier := by
  have hword := isWord_ofWord h.isIdentifier
  rwa [h.ofWord] at hword

/-- What is no reserved word is a name. -/
theorem TokenKind.ofWord_eq_identifier {word : String}
    (h : ∀ m ∈ TokenKind.reservedWords, m.1 ≠ word) : TokenKind.ofWord word = .identifier := by
  rw [ofWord]
  cases hlookup : TokenKind.reservedWords.lookup word with
  | none => rfl
  | some kind =>
    obtain ⟨before, after, hmem, -⟩ := List.lookup_eq_some_iff.1 hlookup
    exact absurd rfl (h (word, kind) (by rw [hmem]; simp))

/-! ## Lines at the left margin -/

/-- Lines stand for every statement that differs only in its places. -/
theorem Stands.of_bare {marks : List Mark} (h : Stands line rows marks a) (hb : b.bare = a.bare) :
    Stands line rows marks b where
  ne_nil := h.ne_nil
  opens := h.opens
  reads := hb ▸ h.reads

/-- Lines at the margin may follow others. -/
theorem Margin.append (h : Margin line rows body)
    (hmore : Margin (line + rows.length) more others) :
    Margin line (rows ++ more) (body ++ others) := by
  induction h with
  | done => exact hmore
  | blank _ ih =>
    refine .blank (ih ?_)
    rwa [List.length_cons, ← Nat.add_assoc, Nat.add_right_comm] at hmore
  | next hstands _ ih =>
    rw [List.append_assoc]
    refine .next hstands (ih ?_)
    rwa [List.length_append, ← Nat.add_assoc] at hmore

/-- The lines of one statement stand at the margin. -/
theorem Margin.single {marks : List Mark} (h : Stands line rows marks a) :
    Margin line rows [a] := by
  have hmargin := Margin.next h .done
  rwa [List.append_nil] at hmargin

/-- Parts that stand at the left margin wherever they begin stand there one after the other. -/
theorem Margin.flatMap {α : Type} {rowsOf : α → List Row} {stmtOf : α → Stmt} {parts : List α}
    (h : ∀ p ∈ parts, ∀ line, Margin line (rowsOf p) [stmtOf p]) (line : Nat) :
    Margin line (parts.flatMap rowsOf) (parts.map stmtOf) := by
  induction parts generalizing line with
  | nil => exact .done
  | cons p parts ih =>
    obtain ⟨hp, hparts⟩ := List.forall_mem_cons.1 h
    exact (hp line).append (ih hparts _)

end Code

namespace Signature.TypeExpr

open Code

/-- An index is moved by moving its elements. -/
theorem mapSpan_index (f : Span → Span) (s : Span) (es : List Expr) :
    (Piece.index s es).mapSpan f = Piece.index (f s) (es.map (Expr.mapSpan f)) := by
  match es with
  | [] => rfl
  | [e] => rfl
  | e :: e' :: es => rw [Piece.index, Expr.mapSpan, Expr.mapSpanIn_eq_map]; rfl; nofun

/-- The expression that shows a type holds no place of its own. -/
theorem mapSpan_expr (f : Span → Span) (s : Span) (type : TypeExpr) :
    (type.expr s).mapSpan f = type.expr (f s) := by
  match type with
  | any => rfl
  | primitive _ => rfl
  | named _ => rfl
  | generic _ element => rw [expr, Expr.mapSpan, Expr.mapSpan, mapSpan_expr f s element, expr]
  | dict key value =>
    simp only [expr, Expr.mapSpan, Expr.mapSpanIn_eq_map, List.map_cons, List.map_nil,
      mapSpan_expr f s key, mapSpan_expr f s value]
  | tuple elements =>
    have hall : (elements.map (expr s)).map (Expr.mapSpan f) = elements.map (expr (f s)) := by
      rw [List.map_map]
      exact List.map_congr_left fun e _ => mapSpan_expr f s e
    rw [expr, Expr.mapSpan, Expr.mapSpan, exprs_eq_map, mapSpan_index, hall, expr, exprs_eq_map]

end Signature.TypeExpr

namespace Stub

open Code Code.Parse Signature

variable {line : Nat} {operation : Operation} {operations : List Operation} {names : List String}
  {code : String} {body : List Stmt}

/-! ## What a module declares -/

/-- The import of names. -/
def importing (s : Span) : Stmt := .skipped s .importNames

/-- The assignment of a value to a name. -/
def binding (s : Span) (name : String) (value : Expr) : Stmt := .assign s [.name s name] value

/-- The expression that shows the type for which an alias stands. -/
def aliasValue (s : Span) (target : String) : Expr :=
  if target = "Tuple[Any, ...]" then
    .subscript s (.name s "Tuple") (.tuple s [.name s "Any", .constant s .ellipsis])
  else if target = "Tuple[int, int]" then
    .subscript s (.name s "Tuple") (.tuple s [.name s "int", .name s "int"])
  else .name s target

/-- A new type variable. -/
def typeVariable (s : Span) (literal : String) : Expr :=
  .call s (.name s "TypeVar") [.constant s (.string literal)] []

/-- A parameter with its type. -/
def typed (name : String) (type : Expr) : Parameter Expr := ⟨name, .positional, some type, none⟩

/-- A function that does nothing but raise an exception. -/
def raising (s : Span) (name : String) (parameters : List (Parameter Expr))
    (result : Expr) : Stmt :=
  .function s name parameters (some result) [] false [.skipped s .raise]

/-- The function that folds updates over items. -/
def folding (s : Span) : Stmt :=
  raising s foldName
    [typed "initial" (.name s "T"),
      typed "items" (.subscript s (.name s "Iterable") (.name s "U")),
      typed "update" (.subscript s (.name s "Callable")
        (.tuple s [.listDisplay s [.name s "T", .name s "U"], .name s "T"]))]
    (.name s "T")

/-- The function that stands for an operation. -/
def declaring (s : Span) (operation : Operation) : Stmt :=
  raising s operation.name
    (operation.parameters.mapIdx fun i type => typed s!"arg{i}" (type.expr s))
    (operation.result.expr s)

/-- The statements of a module before its code. -/
def preamble (s : Span) (operations : List Operation) (names : List String) : List Stmt :=
  importing s ::
    ((aliases operations names).map fun bound => binding s bound.1 (aliasValue s bound.2)) ++
    [binding s "T" (typeVariable s "\"T\""), binding s "U" (typeVariable s "\"U\""), folding s] ++
    operations.map (declaring s)

/-! ## Lines of a module -/

/-- The first line imports names. -/
theorem exists_stands_header (line : Nat) :
    ∃ marks, Stands line [.words 0 header] marks (importing (.ofLine line)) := by
  have himported : ∀ name ∈ importedNames, IsWord name .identifier := by decide +kernel
  have hpieces : ∀ p ∈ importedNames.map (Piece.name line), p.Reads line := by
    rw [List.forall_mem_map]
    exact fun name hname => Piece.reads_name (himported name hname)
  have hnames := Piece.spells_textOf hpieces
  have hbegins : BeginsWithWord (Piece.textOf (importedNames.map (Piece.name line))) :=
    beginsWithWord_append (himported "Any" (by decide)) _
  -- spelled from the right, as each word asks for a blank behind it
  have himport := (hnames.blank hbegins).lookup (w := "import") rfl (by decide) .blank
  have htyping : IsWord "typing" .identifier := by decide +kernel
  have hmodule := (Piece.reads_name htyping).spells.append
    (himport.blank (beginsWithWord_append (isWord_of_lookup rfl) _)) .blank
  have hfrom := (hmodule.blank (beginsWithWord_append htyping _)).lookup (w := "from") rfl
    (by decide) .blank
  have htext : header.toList = "from".toList ++ ' ' :: ("typing".toList ++ ' ' ::
      ("import".toList ++ ' ' :: Piece.textOf (importedNames.map (Piece.name line)))) := by
    rw [Piece.textOf, List.map_map]
    exact (by decide +kernel : header.toList = "from".toList ++ ' ' :: ("typing".toList ++ ' ' ::
      ("import".toList ++ ' ' :: [',', ' '].intercalate (importedNames.map String.toList))))
  have hfills : FillsLine line header (⟨.kwFrom, "from", line⟩ :: (Mark.name line "typing" ::
      ⟨.kwImport, "import", line⟩ :: Piece.marksOf line
        (importedNames.map (Piece.name line)))) := by
    have hword : IsWord "from" .kwFrom := isWord_of_lookup rfl
    refine ⟨?_, ?_, Piece.depthAfter_marksOf hpieces 0, nofun⟩
    · rw [htext]
      exact beginsWithWord_append hword _
    · rw [htext]
      exact hfrom
  have hline : ∀ m ∈ Mark.name line "typing" :: ⟨.kwImport, "import", line⟩ ::
      Piece.marksOf line (importedNames.map (Piece.name line)), endsLine m.kind = false := by
    have hall : (Mark.name line "typing" :: ⟨.kwImport, "import", line⟩ ::
        Piece.marksOf line (importedNames.map (Piece.name line))).all
        (fun m => !endsLine m.kind) = true := rfl
    simpa using List.all_eq_true.1 hall
  exact ⟨_, hfills.stands fun hs hu => stmtOf_skipped rfl hs hline hu⟩

/-! ### Aliases -/

/-- The type for which an alias stands is read as such. -/
theorem exists_aliasPiece {name target : String} (h : aliasFor name = some target) (line : Nat) :
    ∃ p : Piece, p.Reads line ∧ p.text = target.toList ∧
      p.value = aliasValue (.ofLine line) target := by
  have hany : IsWord "Any" .identifier := by decide +kernel
  have hint : IsWord "int" .identifier := by decide +kernel
  have htuple : IsWord "Tuple" .identifier := by decide +kernel
  have hsegment :
      (Piece.applied line "Tuple" [.name line "Any", .ellipsis line]).Reads line :=
    Piece.reads_applied htuple (List.forall_mem_cons.2 ⟨Piece.reads_name hany,
      List.forall_mem_singleton.2 Piece.reads_ellipsis⟩) nofun
  have haxis : (Piece.applied line "Tuple" [.name line "int", .name line "int"]).Reads line :=
    Piece.reads_applied htuple (List.forall_mem_cons.2 ⟨Piece.reads_name hint,
      List.forall_mem_singleton.2 (Piece.reads_name hint)⟩) nofun
  -- reserved names, domains, primitive types and other identifiers, as they are looked up
  unfold aliasFor at h
  split at h
  · cases h
  split at h
  · rename_i found hlookup
    obtain rfl := Option.some.inj h
    obtain ⟨before, after, hmem, -⟩ := List.lookup_eq_some_iff.1 hlookup
    have htargets : ∀ m ∈ domainAliases, m.2 = "Tuple[Any, ...]" ∨ m.2 = "Tuple[int, int]" := by
      decide
    obtain rfl | rfl : found = "Tuple[Any, ...]" ∨ found = "Tuple[int, int]" :=
      htargets (name, found) (by rw [hmem]; simp)
    · exact ⟨_, hsegment, rfl, rfl⟩
    · exact ⟨_, haxis, rfl, rfl⟩
  · split at h
    · rename_i p _
      split at h
      · cases h
      · obtain rfl := Option.some.inj h
        have hname : IsWord p.name .identifier := by cases p <;> decide +kernel
        refine ⟨_, Piece.reads_name hname, rfl, ?_⟩
        rw [aliasValue, if_neg (by cases p <;> decide), if_neg (by cases p <;> decide)]
        rfl
    · split at h
      · obtain rfl := Option.some.inj h
        exact ⟨_, Piece.reads_name hany, rfl, rfl⟩
      · cases h

/-- No alias has a reserved word for its name. -/
theorem ofWord_of_aliasFor {name target : String} (h : aliasFor name = some target) :
    TokenKind.ofWord name = .identifier := by
  refine TokenKind.ofWord_eq_identifier fun m hm hname => ?_
  have hreserved : ∀ m ∈ TokenKind.reservedWords, reservedNames.contains m.1 = true := by
    decide +kernel
  rw [aliasFor, if_pos (hname ▸ hreserved m hm)] at h
  cases h

/-- A line that binds an alias is read as the binding. -/
theorem exists_stands_alias {name target : String}
    (hname : Text.isIdentifier name.toList = true) (h : aliasFor name = some target) (line : Nat) :
    ∃ marks, Stands line [.words 0 s!"{name} = {target}"] marks
      (binding (.ofLine line) name (aliasValue (.ofLine line) target)) := by
  obtain ⟨p, hp, htext, hvalue⟩ := exists_aliasPiece h line
  rw [← hvalue]
  refine stands_assign (IsName.isWord ⟨hname, ofWord_of_aliasFor h⟩) hp ?_
  rw [htext]
  simp [ToString.toString]

/-- A line that binds a type variable is read as the binding. -/
theorem exists_stands_typeVariable (text name literal : String) (hname : IsWord name .identifier)
    (htext : text.toList = name.toList ++ " = TypeVar(".toList ++ literal.toList ++ ")".toList)
    (hline : '\n' ∉ literal.toList) (hliteral : ∀ rest, Lexeme.next? (literal.toList ++ rest) =
      some (.token .string literal.toList, rest)) (line : Nat) :
    ∃ marks, Stands line [.words 0 text] marks
      (binding (.ofLine line) name (typeVariable (.ofLine line) literal)) := by
  have htypeVar : IsWord "TypeVar" .identifier := by decide +kernel
  refine stands_assign hname (Piece.reads_calling htypeVar hline hliteral) ?_
  rw [htext]
  simp [Piece.calling]

/-! ### Functions -/

/-- The head of the function that folds. -/
def foldHead (line : Nat) : Head where
  name := foldName
  parameters := [("initial", .name line "T"),
    ("items", .applied line "Iterable" [.name line "U"]),
    ("update", .applied line "Callable"
      [.listDisplay line [.name line "T", .name line "U"], .name line "T"])]
  result := .name line "T"

/-- The text of the head of the function that folds. -/
def foldText : String :=
  s!"def {foldName}(initial: T, items: Iterable[U], update: Callable[[T, U], T]) -> T:"

/-- The lines of the fold are read as its function. -/
theorem exists_stands_folding (line : Nat) :
    ∃ marks, Stands line (Head.rows foldText) marks ((foldHead line).stmt line) := by
  have hword : ∀ word ∈ [foldName, "initial", "items", "update", "Iterable", "Callable", "T", "U"],
      IsWord word .identifier := by decide +kernel
  have ht : (Piece.name line "T").Reads line := Piece.reads_name (hword "T" (by decide))
  have hu : (Piece.name line "U").Reads line := Piece.reads_name (hword "U" (by decide))
  have hitems := Piece.reads_applied (hword "Iterable" (by decide))
    (List.forall_mem_singleton.2 hu) nofun
  have hlist := Piece.reads_listDisplay
    (List.forall_mem_cons.2 ⟨ht, List.forall_mem_singleton.2 hu⟩) nofun
  have hupdate := Piece.reads_applied (hword "Callable" (by decide))
    (List.forall_mem_cons.2 ⟨hlist, List.forall_mem_singleton.2 ht⟩) nofun
  have hreads : (foldHead line).Reads line := by
    refine ⟨hword foldName (by decide), ?_, ht⟩
    refine List.forall_mem_cons.2 ⟨⟨hword "initial" (by decide), ht⟩, List.forall_mem_cons.2 ⟨
      ⟨hword "items" (by decide), hitems⟩, List.forall_mem_singleton.2
        ⟨hword "update" (by decide), hupdate⟩⟩⟩
  exact hreads.stands (show foldText.toList = (foldHead 0).text by decide +kernel)

section

variable {α β γ : Type}

theorem map_mapIdx (f : Nat → α → β) (g : β → γ) (l : List α) :
    (l.mapIdx f).map g = l.mapIdx fun i a => g (f i a) :=
  List.ext_getElem (by simp) (by simp)

theorem mapIdx_map (f : α → β) (g : Nat → β → γ) (l : List α) :
    (l.map f).mapIdx g = l.mapIdx fun i a => g i (f a) :=
  List.ext_getElem (by simp) (by simp)

end

/-- The names of parameters are names. -/
theorem isName_argument (i : Nat) : IsName s!"arg{i}" := by
  have htext : (s!"arg{i}").toList = "arg".toList ++ Nat.toDigits 10 i := by
    simp [ToString.toString, Nat.toList_repr]
  refine ⟨?_, TokenKind.ofWord_eq_identifier fun m hm hword => ?_⟩
  · rw [Text.isIdentifier_iff, htext]
    have hword : ∀ c ∈ "arg".toList, Text.isIdentifierChar c = true :=
      List.all_iff_forall_prop.1 (by decide)
    refine ⟨List.forall_mem_append.2 ⟨hword, fun c hc => ?_⟩, nofun, by rintro c ⟨⟩; rfl⟩
    have hdigit := Nat.isDigit_of_mem_toDigits (by decide) (Nat.le_refl 10) hc
    rw [Text.isIdentifierChar, Char.isAlphanum, hdigit, Bool.or_true]
    rfl
  · have hwords : ∀ m ∈ TokenKind.reservedWords, m.1.toList.take 3 ≠ "arg".toList := by
      decide +kernel
    refine hwords m hm ?_
    rw [hword, htext]
    rfl

/-- The text of the head of the function that stands for an operation. -/
def headText (operation : Operation) : String :=
  let parameters :=
    ", ".intercalate (operation.parameters.mapIdx fun i type => s!"arg{i}: {type.render}")
  s!"def {operation.name}({parameters}) -> {operation.result.render}:"

/-- An operation whose names can stand in code. -/
structure IsDeclarable (operation : Operation) : Prop where
  name : IsName operation.name
  types : ∀ e ∈ operation.types, e.NamedBy IsName

/-- The lines of an operation are read as its function. -/
theorem exists_stands_declaring (h : IsDeclarable operation) (s : Span) (line : Nat) :
    ∃ marks, Stands line (Head.rows (headText operation)) marks (declaring s operation) := by
  have hpiece : ∀ e ∈ operation.types, ∃ p, e.IsPiece line p := fun e he =>
    TypeExpr.exists_piece ((h.types e he).imp fun _ => IsName.isWord) line
  obtain ⟨hparameters, hresult⟩ := List.forall_mem_append.1 hpiece
  obtain ⟨items, hitems⟩ := TypeExpr.exists_pieces hparameters
  obtain ⟨result, hresult⟩ := List.forall_mem_singleton.1 hresult
  obtain ⟨hreads, htexts, hvalues⟩ := TypeExpr.of_pieces hitems
  -- the function with the pieces of its types, which renders to the text of the operation
  let head : Head := ⟨operation.name, items.mapIdx fun i p => (s!"arg{i}", p), result⟩
  have hhead : head.Reads line := by
    refine ⟨h.name.isWord, fun p hp => ?_, hresult.reads⟩
    obtain ⟨i, hi, rfl⟩ := List.mem_mapIdx.1 hp
    exact ⟨(isName_argument i).isWord, hreads _ (List.getElem_mem hi)⟩
  have htext : (headText operation).toList = head.text := by
    have hparts : head.parameters.map Head.parameterText =
        (operation.parameters.mapIdx fun i type =>
          s!"arg{i}: {type.render}").map String.toList := by
      have hlist : head.parameters.map Head.parameterText =
          (items.map Piece.text).mapIdx fun i text =>
            (s!"arg{i}").toList ++ ": ".toList ++ text := by
        rw [mapIdx_map, map_mapIdx]
        rfl
      rw [hlist, htexts, mapIdx_map, map_mapIdx]
      refine congrArg (fun f => operation.parameters.mapIdx f) (funext₂ fun i type => ?_)
      simp [ToString.toString]
    rw [headText, Head.text, hparts, hresult.text]
    simp [String.toList_intercalate, ToString.toString, head]
  have hparameters : (head.parameters.map fun p => typed p.1 p.2.value) =
      operation.parameters.mapIdx fun i type => typed s!"arg{i}" (type.expr (.ofLine line)) := by
    have hlist : (head.parameters.map fun p => typed p.1 p.2.value) =
        (items.map Piece.value).mapIdx fun i value => typed s!"arg{i}" value := by
      rw [mapIdx_map, map_mapIdx]
    rw [hlist, hvalues, mapIdx_map]
  have hstmt : head.stmt line = .function (.ofLine line) operation.name
      (head.parameters.map fun p => typed p.1 p.2.value) (some result.value) [] false
      [.skipped (.ofLine (line + 1)) .raise] := rfl
  obtain ⟨marks, hstands⟩ := hhead.stands htext
  refine ⟨marks, hstands.of_bare ?_⟩
  rw [hstmt, hparameters, hresult.value, declaring, raising]
  simp only [Stmt.bare, Stmt.mapSpan, Stmt.mapSpanIn_eq_map, map_mapIdx, typed,
    Parameter.mapSpan, Option.map_some, TypeExpr.mapSpan_expr]
  rfl

/-! ### All lines -/

/-- The lines of aliases, and the empty line after them. -/
def aliasRows (bound : List (String × String)) : List Row :=
  if bound.isEmpty then []
  else (bound.map fun b => Row.words 0 s!"{b.1} = {b.2}") ++ [.blank 0]

/-- The lines of the declarations that are in every module. -/
def helperRows : List Row :=
  [.words 0 "T = TypeVar(\"T\")", .words 0 "U = TypeVar(\"U\")", .blank 0, .blank 0] ++
    Head.rows foldText

/-- The lines of an operation, and the empty lines before them. -/
def operationRows (operation : Operation) : List Row :=
  [.blank 0, .blank 0] ++ Head.rows (headText operation)

/-- The lines of a module before its code. -/
def rows (operations : List Operation) (names : List String) : List Row :=
  [.words 0 header, .blank 0] ++ aliasRows (aliases operations names) ++ helperRows ++
    operations.flatMap operationRows ++ [.blank 0, .blank 0]

theorem unlines_append (a b : List Row) : Row.unlines (a ++ b) = Row.unlines a ++ Row.unlines b :=
  List.flatMap_append

/-- Lines with line breaks between them, and one after the last. -/
theorem intercalate_lineBreak {texts : List (List Char)} (h : texts ≠ []) :
    ['\n'].intercalate texts ++ ['\n'] = texts.flatMap (· ++ ['\n']) := by
  obtain ⟨text, texts, rfl⟩ := List.exists_cons_of_ne_nil h
  induction texts generalizing text with
  | nil => simp
  | cons next texts ih =>
    have hmore := ih next (List.cons_ne_nil _ _)
    rw [List.flatMap_cons, ← hmore]
    simp [List.intercalate, List.append_assoc]

/-- The text of the aliases is that of their lines. -/
theorem toList_aliasLines (bound : List (String × String)) :
    (aliasLines bound).toList = Row.unlines (aliasRows bound) := by
  cases hbound : bound.isEmpty with
  | true => simp [aliasLines, aliasRows, hbound]
  | false =>
    have htexts : bound.map (fun b => (s!"{b.1} = {b.2}").toList) ≠ [] := by
      simpa using hbound
    have hlines := intercalate_lineBreak htexts
    rw [aliasLines, aliasRows, hbound, if_neg Bool.false_ne_true, if_neg Bool.false_ne_true,
      unlines_append, String.toList_append, String.toList_intercalate, List.map_map]
    show ['\n'].intercalate (bound.map fun b => (s!"{b.1} = {b.2}").toList) ++ ['\n', '\n'] = _
    rw [show ['\n', '\n'] = ['\n'] ++ ['\n'] from rfl, ← List.append_assoc, hlines,
      List.flatMap_map, Row.unlines, List.flatMap_map]
    rfl

/-- The text of an operation is that of its lines. -/
theorem toList_declaration (operation : Operation) :
    ("\n\n" ++ declaration operation).toList = Row.unlines (operationRows operation) := by
  simp [declaration, operationRows, headText, Row.unlines, Head.rows, Head.raising, Row.chars,
    ToString.toString]

/-- The text of the helpers is that of their lines. -/
theorem toList_helpers : helpers.toList = Row.unlines helperRows := by
  decide +kernel

/-- A module is the text of its lines, and then the code. -/
theorem toList_render (operations : List Operation) (names : List String) (code : String) :
    (render operations names code).toList =
      Row.unlines (rows operations names) ++ (ended code).toList := by
  have hdeclarations : (String.join (operations.map fun operation =>
      "\n\n" ++ declaration operation)).toList =
      Row.unlines (operations.flatMap operationRows) := by
    induction operations with
    | nil => rfl
    | cons operation operations ih =>
      rw [List.map_cons, List.flatMap_cons, unlines_append, ← ih, ← toList_declaration]
      simp
  have hheader : header.toList ++ "\n\n".toList = Row.unlines [.words 0 header, .blank 0] := by
    simp [Row.unlines, Row.chars]
  have hblank : "\n\n".toList = Row.unlines [.blank 0, .blank 0] := rfl
  simp only [render, rows, String.toList_append, hheader, unlines_append, toList_aliasLines,
    toList_helpers, hdeclarations]
  rw [hblank]

/-- The last line that is not blank is that of a body. -/
theorem lastWidth_rows (operations : List Operation) (names : List String) :
    Row.lastWidth 0 (rows operations names) = 4 := by
  have happend (width : Nat) (a b : List Row) :
      Row.lastWidth width (a ++ b) = Row.lastWidth (Row.lastWidth width a) b := List.foldl_append
  have hhelpers (width : Nat) : Row.lastWidth width helperRows = 4 := rfl
  have hoperations : Row.lastWidth 4 (operations.flatMap operationRows) = 4 := by
    induction operations with
    | nil => rfl
    | cons operation operations ih =>
      rw [List.flatMap_cons, happend]
      exact ih
  rw [rows, happend, happend, happend, hhelpers, hoperations]
  rfl

/-! ## What is read of a module -/

/-- The lines of the aliases are read as their bindings. -/
theorem margin_aliasRows (hnames : ∀ name ∈ names, Text.isIdentifier name.toList = true)
    (s : Span) (line : Nat) : Margin line (aliasRows (aliases operations names))
      ((aliases operations names).map fun bound => binding s bound.1 (aliasValue s bound.2)) := by
  have hbound : ∀ bound ∈ aliases operations names, ∀ line, Margin line
      [Row.words 0 s!"{bound.1} = {bound.2}"] [binding s bound.1 (aliasValue s bound.2)] := by
    intro bound hbound line
    obtain ⟨name, hname, halias⟩ := List.mem_filterMap.1 hbound
    obtain ⟨target, htarget, rfl⟩ := Option.map_eq_some_iff.1 halias
    obtain ⟨marks, hstands⟩ :=
      exists_stands_alias (hnames name (List.mem_filter.1 hname).1) htarget line
    refine .single (hstands.of_bare ?_)
    unfold aliasValue
    split
    · rfl
    · split <;> rfl
  have hlines := Margin.flatMap hbound line
  rw [aliasRows]
  cases hempty : (aliases operations names).isEmpty with
  | true =>
    rw [List.isEmpty_iff.1 hempty]
    exact .done
  | false =>
    rw [← List.flatMap_pure_eq_map, if_neg Bool.false_ne_true, ← List.append_nil (List.map _ _)]
    exact hlines.append (.blank .done)

/-- The lines of the helpers are read as two type variables and the fold. -/
theorem margin_helperRows (s : Span) (line : Nat) : Margin line helperRows
    [binding s "T" (typeVariable s "\"T\""), binding s "U" (typeVariable s "\"U\""),
      folding s] := by
  have hname : ∀ word ∈ ["T", "U"], IsWord word .identifier := by decide +kernel
  obtain ⟨_, hfirst⟩ := exists_stands_typeVariable "T = TypeVar(\"T\")" "T" "\"T\""
    (hname "T" (by decide)) (by decide) (by decide) (fun _ => rfl) line
  obtain ⟨_, hsecond⟩ := exists_stands_typeVariable "U = TypeVar(\"U\")" "U" "\"U\""
    (hname "U" (by decide)) (by decide) (by decide) (fun _ => rfl) (line + 1)
  obtain ⟨_, hfold⟩ := exists_stands_folding (line + 1 + 1 + 1 + 1)
  have hfirst : Margin line _ [binding s "T" (typeVariable s "\"T\"")] :=
    .single (hfirst.of_bare rfl)
  have hsecond : Margin (line + 1) _ [binding s "U" (typeVariable s "\"U\"")] :=
    .single (hsecond.of_bare rfl)
  have hlast : Margin (line + 1 + 1) ([.blank 0, .blank 0] ++ Head.rows foldText) [folding s] :=
    .blank (.blank (.single (hfold.of_bare rfl)))
  exact hfirst.append (hsecond.append hlast)

/-- The lines before the code are read as what the module declares. -/
theorem margin_rows (hoperations : ∀ o ∈ operations, IsDeclarable o)
    (hnames : ∀ name ∈ names, Text.isIdentifier name.toList = true) (s : Span) :
    Margin 1 (rows operations names) (preamble s operations names) := by
  obtain ⟨_, hheader⟩ := exists_stands_header 1
  have hheader : Margin 1 [.words 0 header] [importing s] := .single (hheader.of_bare rfl)
  have hfirst : Margin 1 ([.words 0 header] ++ [.blank 0]) ([importing s] ++ []) :=
    hheader.append (.blank .done)
  have hdeclared (line : Nat) :
      Margin line (operations.flatMap operationRows) (operations.map (declaring s)) := by
    refine Margin.flatMap (fun operation hoperation line => ?_) line
    obtain ⟨_, hstands⟩ :=
      exists_stands_declaring (hoperations operation hoperation) s (line + 1 + 1)
    exact .blank (.blank (.single hstands))
  have haliases (line : Nat) : Margin line (aliasRows (aliases operations names)) _ :=
    margin_aliasRows hnames s line
  have hall := ((hfirst.append (haliases _)).append (margin_helperRows s _)).append (hdeclared _)
  have hmargin : Margin 1 (rows operations names) _ := hall.append (.blank (.blank .done))
  rwa [List.append_nil] at hmargin

/-- What stands in a module as the code is read as the code by itself, if no line of it is made of
indentation and a carriage return at its end. -/
theorem exists_parse_ended (h : Code.parse code = .ok body)
    (hreturn : (Reader.ofText code).Unreturned) :
    ∃ body', Code.parse (ended code) = .ok body' ∧ body'.map Stmt.bare = body.map Stmt.bare := by
  obtain ⟨tokens, htokens, hparse⟩ := exists_tokens_of_parse h
  obtain ⟨tail, htail, hended⟩ : ∃ tail, Reader.IsEnding tail ∧
      (ended code).toList = code.toList ++ tail := by
    by_cases hlast : code.toList.getLast? = some '\n'
    · exact ⟨[], .inl rfl, by rw [ended, if_pos hlast, List.append_nil]⟩
    · exact ⟨['\n'], .inr rfl, by rw [ended, if_neg hlast]; simp⟩
  obtain ⟨tokens', htokens', hshapes⟩ :=
    Reader.exists_tokens_elsewhere htail htokens hreturn (Reader.ofText code).here
  obtain ⟨body', hbody', hbare⟩ := exists_parseTokens_eq htokens hshapes hparse
  have hreader : Reader.ofText (ended code) =
      (Reader.ofText code).elsewhere (Reader.ofText code).here tail := by
    rw [Reader.ofText, hended]
    rfl
  refine ⟨body', ?_, hbare⟩
  rw [Code.parse, tokenize, hreader, htokens']
  exact hbody'

example : (Code.parse "while x:\n  \r").isOk = true ∧
    (Code.parse (ended "while x:\n  \r")).isOk = false := by decide +kernel

/-- A text that ends with a line break has no line that ends with a carriage return only. -/
theorem unreturned_ofText (h : code.toList.getLast? = some '\n') :
    (Reader.ofText code).Unreturned := by
  have hline : ∀ before line, code.toList = before ++ line →
      line.dropWhile Reader.isIndent ≠ ['\r'] := by
    intro before line hcode hline
    have hreturn : line.getLast? = some '\r' := by
      rw [← List.takeWhile_append_dropWhile (p := Reader.isIndent) (l := line), hline]
      simp
    rw [hcode, List.getLast?_append, hreturn] at h
    cases h
  exact ⟨fun _ => ⟨rfl, hline [] _ rfl⟩, fun before line hcode _ => hline before line hcode⟩

/-- A module is read as its declarations and then as its code just if the first line of the code
that is not blank holds a token. -/
theorem parse_render_iff (hoperations : ∀ o ∈ operations, IsDeclarable o)
    (hnames : ∀ name ∈ names, Text.isIdentifier name.toList = true)
    (hcode : Code.parse code = .ok body) (hreturn : (Reader.ofText code).Unreturned) (s : Span) :
    (∃ all, Code.parse (render operations names code) = .ok all ∧
      all.map Stmt.bare = (preamble s operations names ++ body).map Stmt.bare) ↔
        ¬Hollow (ended code).toList := by
  obtain ⟨body', hparse, hbare⟩ := exists_parse_ended hcode hreturn
  have hmargin := margin_rows hoperations hnames s
  have hwidth : 0 < Row.lastWidth 0 (rows operations names) := by
    rw [lastWidth_rows]
    decide
  have hiff := hmargin.parse_iff hwidth (toList_render operations names code) hparse
  rw [List.map_append, ← hbare, ← List.map_append]
  exact hiff

/-- An operation with two parameters, one of them a tuple, and a function that returns its argument.
-/
theorem parse_render_of_function :
    let paint : Operation := ⟨"paint", [.named "Grid", .tuple [.named "Cell"]], .named "Grid"⟩
    let code := "def f(x):\n    return x\n"
    IsDeclarable paint ∧ ∃ body, Code.parse code = .ok body ∧ ∀ s, ∃ all,
      Code.parse (render [paint] ["Cell", "Grid", "def"] code) = .ok all ∧
        all.map Stmt.bare = (preamble s [paint] ["Cell", "Grid", "def"] ++ body).map Stmt.bare := by
  intro paint code
  have hgrid : IsName "Grid" := ⟨by decide +kernel, by decide +kernel⟩
  have hcell : IsName "Cell" := ⟨by decide +kernel, by decide +kernel⟩
  have hpaint : IsDeclarable paint := by
    refine ⟨⟨by decide +kernel, by decide +kernel⟩, ?_⟩
    have htuple : TypeExpr.NamedBy IsName (.tuple [.named "Cell"]) :=
      .tuple nofun (List.forall_mem_singleton.2 (.named hcell))
    exact List.forall_mem_cons.2 ⟨.named hgrid, List.forall_mem_cons.2 ⟨htuple,
      List.forall_mem_singleton.2 (.named hgrid)⟩⟩
  obtain ⟨body, hbody⟩ : ∃ body, Code.parse code = .ok body :=
    Results.exists_of_isOk (by decide +kernel)
  have hended : ended code = code := by decide +kernel
  have hfirst : Lexeme.next? (code.toList.dropWhile Reader.isIndent) =
      some (.token .kwDef "def".toList, " f(x):\n    return x\n".toList) := by decide +kernel
  have hhollow : ¬Hollow (ended code).toList := by
    rw [hended]
    exact not_hollow_of_token (by decide +kernel) hfirst
  refine ⟨hpaint, body, hbody, fun s => ?_⟩
  exact (parse_render_iff (List.forall_mem_singleton.2 hpaint) (by decide +kernel) hbody
    (unreturned_ofText (by decide +kernel)) s).2 hhollow

/-- A line that goes on in an empty one is accepted as code, but not after declarations. -/
theorem parse_render_ne_of_hollow :
    let paint : Operation := ⟨"paint", [.named "Grid"], .named "Grid"⟩
    let code := "\\\n\n"
    IsDeclarable paint ∧ ∃ body, Code.parse code = .ok body ∧ ∀ s,
      ¬∃ all, Code.parse (render [paint] ["Grid"] code) = .ok all ∧
        all.map Stmt.bare = (preamble s [paint] ["Grid"] ++ body).map Stmt.bare := by
  intro paint code
  have hgrid : IsName "Grid" := ⟨by decide +kernel, by decide +kernel⟩
  have hpaint : IsDeclarable paint := ⟨⟨by decide +kernel, by decide +kernel⟩,
    List.forall_mem_cons.2 ⟨.named hgrid, List.forall_mem_singleton.2 (.named hgrid)⟩⟩
  obtain ⟨body, hbody⟩ : ∃ body, Code.parse code = .ok body :=
    Results.exists_of_isOk (by decide +kernel)
  have hended : ended code = code := by decide +kernel
  have hnext : Lexeme.next? (code.toList.dropWhile Reader.isIndent) =
      some (.gap "\\\n".toList, ['\n']) := by decide +kernel
  have hbreak : Lexeme.next? ['\n'] = some (.lineBreak ['\n'], []) := rfl
  have hhollow : Hollow code.toList := .line (by decide +kernel) (.gap hnext (.lineBreak hbreak))
  refine ⟨hpaint, body, hbody, fun s hall => ?_⟩
  have hmargin := margin_rows (List.forall_mem_singleton.2 hpaint)
    (show ∀ name ∈ ["Grid"], _ by decide +kernel) s
  have htext := toList_render [paint] ["Grid"] code
  rw [hended] at htext
  have hiff := hmargin.parse_iff (by rw [lastWidth_rows]; decide) htext hbody
  exact hiff.1 hall hhollow

end Stub

end NoteCheck
