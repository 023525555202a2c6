/-
# What documents hold

A document that is read holds each key of a table once, and whole numbers of 64 bits only. So the
configuration that it describes does not depend on the order of its keys.
-/
import NoteCheck.ConfigFile
import NoteCheck.Toml.Document

namespace NoteCheck

namespace Toml

/-- No key stands twice in a table, whole numbers have 64 bits, and a list of tables has a table. -/
inductive Value.IsProper : Value → Prop
  | string {text} : IsProper (.string text)
  | integer {value : Int} : -0x8000000000000000 ≤ value → value < 0x8000000000000000 →
      IsProper (.integer value)
  | float {text} : IsProper (.float text)
  | boolean {value} : IsProper (.boolean value)
  | dateTime {text} : IsProper (.dateTime text)
  | array {elements} : (∀ v ∈ elements, IsProper v) → IsProper (.array elements)
  | table {kind entries} : (entries.map Prod.fst).Nodup → (∀ e ∈ entries, IsProper e.2) →
      IsProper (.table kind entries)
  | tables {elements} : elements ≠ [] → (∀ entries ∈ elements, (entries.map Prod.fst).Nodup) →
      (∀ entries ∈ elements, ∀ e ∈ entries, IsProper e.2) → IsProper (.tables elements)

/-- The entries of a table: no key is there twice, and the values are proper. -/
structure Entries.IsProper (entries : Entries) : Prop where
  distinct : (entries.map Prod.fst).Nodup
  values : ∀ e ∈ entries, e.2.IsProper

/-! ## Entries -/

namespace Entries

variable {entries after : Entries} {key : String} {value : Value} {kind : TableKind}

/-- Tables with proper entries make a proper list. -/
theorem isProper_tables {elements : List Entries} (hne : elements ≠ [])
    (h : ∀ entries ∈ elements, IsProper entries) : (Value.tables elements).IsProper :=
  .tables hne (fun entries hentries => (h entries hentries).distinct)
    fun entries hentries => (h entries hentries).values

theorem isProper_nil : IsProper [] := ⟨List.nodup_nil, List.forall_mem_nil _⟩

/-- The value under a key is one of the values. -/
theorem IsProper.value_of_lookup (h : IsProper entries) (hkey : entries.lookup key = some value) :
    value.IsProper := by
  obtain ⟨before, after, rfl, -⟩ := List.lookup_eq_some_iff.1 hkey
  exact h.values (key, value) (by simp)

/-- A new key comes after the others. -/
theorem IsProper.add (h : IsProper entries) (hkey : entries.lookup key = none)
    (hvalue : value.IsProper) : IsProper (entries ++ [(key, value)]) := by
  refine ⟨?_, List.forall_mem_append.2 ⟨h.values, List.forall_mem_singleton.2 hvalue⟩⟩
  rw [List.map_append, List.map_singleton, List.nodup_append]
  refine ⟨h.distinct, List.pairwise_singleton _ key, List.forall_mem_map.2 fun e he => ?_⟩
  have hne := bne_iff_ne.1 (List.lookup_eq_none_iff.1 hkey e he)
  exact List.forall_mem_singleton.2 hne.symm

/-- Another value under a key that is there leaves the keys as they are. -/
theorem map_fst_set (hkey : key ∈ entries.map Prod.fst) :
    (set key value entries).map Prod.fst = entries.map Prod.fst := by
  induction entries with
  | nil => cases hkey
  | cons e entries ih =>
    obtain ⟨k, v⟩ := e
    rw [set]
    split
    · rfl
    · rename_i hne
      obtain rfl | hkey := List.mem_cons.1 hkey
      · exact absurd rfl hne
      · rw [List.map_cons, List.map_cons, ih hkey]

/-- Only the value under the key is another one. -/
theorem mem_or_eq_of_mem_set {e : String × Value} (h : e ∈ set key value entries) :
    e ∈ entries ∨ e = (key, value) := by
  induction entries with
  | nil => exact .inr (List.mem_singleton.1 h)
  | cons d entries ih =>
    obtain ⟨k, v⟩ := d
    rw [set] at h
    split at h
    · rename_i heq
      obtain rfl | h := List.mem_cons.1 h
      · exact .inr (by rw [heq])
      · exact .inl (List.mem_cons_of_mem _ h)
    · obtain rfl | h := List.mem_cons.1 h
      · exact .inl List.mem_cons_self
      · exact (ih h).imp_left (List.mem_cons_of_mem _)

/-- A key that is there may be given another value. -/
theorem IsProper.set {old : Value} (h : IsProper entries) (hkey : entries.lookup key = some old)
    (hvalue : value.IsProper) : IsProper (Entries.set key value entries) := by
  obtain ⟨before, after, hentries, -⟩ := List.lookup_eq_some_iff.1 hkey
  refine ⟨?_, fun e he => ?_⟩
  · rw [map_fst_set (by simp [hentries])]
    exact h.distinct
  · obtain he | rfl := mem_or_eq_of_mem_set he
    · exact h.values e he
    · exact hvalue

/-- A change of the table to which keys lead keeps all tables on the way proper. -/
theorem isProper_change {isDotted : Bool} {f : TableKind → Entries → Option Entries}
    (hf : ∀ kind entries after, IsProper entries → f kind entries = some after → IsProper after)
    {keys : List String} (h : IsProper entries)
    (hchange : change isDotted f keys kind entries = some after) : IsProper after := by
  induction keys generalizing kind entries after with
  | nil => exact hf kind entries after h hchange
  | cons key keys ih =>
    rw [change] at hchange
    split at hchange
    · rename_i hnone
      obtain ⟨inner, hinner, hafter⟩ := Option.bind_eq_some_iff.1 hchange
      obtain rfl := Option.some.inj hafter
      have hproper := ih isProper_nil hinner
      exact h.add hnone (.table hproper.distinct hproper.values)
    · cases hchange
    · rename_i kind inner hlookup
      split at hchange
      · cases hchange
      · obtain ⟨inner', hinner, hafter⟩ := Option.bind_eq_some_iff.1 hchange
        obtain rfl := Option.some.inj hafter
        cases h.value_of_lookup hlookup with
        | table hdistinct hvalues =>
          have hproper := ih ⟨hdistinct, hvalues⟩ hinner
          exact h.set hlookup (.table hproper.distinct hproper.values)
    · rename_i elements hlookup
      obtain ⟨last, hlast, hafter⟩ := Option.bind_eq_some_iff.1 hchange
      obtain rfl := Option.some.inj hafter
      cases h.value_of_lookup hlookup with
      | tables hne hdistinct hvalues =>
        -- the keys lead into the table that was opened last
        have hmem : elements.getLastD [] ∈ elements := by
          rw [List.getLastD_eq_getLast?, List.getLast?_eq_some_getLast hne]
          exact List.getLast_mem hne
        have hproper := ih ⟨hdistinct _ hmem, hvalues _ hmem⟩ hlast
        refine h.set hlookup (isProper_tables (by simp) ?_)
        refine List.forall_mem_append.2
          ⟨fun inner hinner => ?_, List.forall_mem_singleton.2 hproper⟩
        have hmem := (List.dropLast_sublist elements).mem hinner
        exact ⟨hdistinct inner hmem, hvalues inner hmem⟩
    · cases hchange

/-- A value is put under a new key only. -/
theorem isProper_insert {isDotted : Bool} (hvalue : value.IsProper) (h : IsProper entries)
    (hinsert : insert isDotted key value kind entries = some after) : IsProper after := by
  rw [insert] at hinsert
  split at hinsert
  · split at hinsert
    · obtain rfl := Option.some.inj hinsert
      exact h.add ‹_› hvalue
    · cases hinsert
  · cases hinsert

theorem isProper_put {path : List String} (hvalue : value.IsProper) (h : IsProper entries)
    (hput : put path key value kind entries = some after) : IsProper after :=
  isProper_change (fun _ _ _ => isProper_insert hvalue) h hput

/-- A table that is opened is empty, or it has been implied before. -/
theorem isProper_openTable (h : IsProper entries)
    (hopen : openTable key kind entries = some after) : IsProper after := by
  rw [openTable] at hopen
  split at hopen
  · obtain rfl := Option.some.inj hopen
    exact h.add ‹_› (.table List.nodup_nil (List.forall_mem_nil _))
  · obtain rfl := Option.some.inj hopen
    rename_i hlookup
    cases h.value_of_lookup hlookup with
    | table hdistinct hvalues => exact h.set hlookup (.table hdistinct hvalues)
  · cases hopen

/-- A further table of a list is empty. -/
theorem isProper_openElement (h : IsProper entries)
    (hopen : openElement key kind entries = some after) : IsProper after := by
  have hempty : ∀ inner ∈ [([] : Entries)], IsProper inner :=
    List.forall_mem_singleton.2 isProper_nil
  rw [openElement] at hopen
  split at hopen
  · obtain rfl := Option.some.inj hopen
    exact h.add ‹_› (isProper_tables (List.cons_ne_nil _ _) hempty)
  · obtain rfl := Option.some.inj hopen
    rename_i hlookup
    cases h.value_of_lookup hlookup with
    | tables hne hdistinct hvalues =>
      refine h.set hlookup (isProper_tables (List.append_ne_nil_of_left_ne_nil hne _) ?_)
      exact List.forall_mem_append.2
        ⟨fun inner hinner => ⟨hdistinct inner hinner, hvalues inner hinner⟩, hempty⟩
  · cases hopen

/-- In proper entries a value stands under its key just if it is there with it. -/
theorem IsProper.lookup_eq_some_iff (h : IsProper entries) :
    entries.lookup key = some value ↔ (key, value) ∈ entries := by
  constructor
  · intro hlookup
    obtain ⟨before, after, rfl, -⟩ := List.lookup_eq_some_iff.1 hlookup
    simp
  · intro hmem
    obtain ⟨before, after, rfl⟩ := List.append_of_mem hmem
    refine List.lookup_eq_some_iff.2 ⟨before, after, rfl, fun e he => ?_⟩
    have hdistinct := h.distinct
    rw [List.map_append, List.map_cons, List.nodup_append] at hdistinct
    exact bne_iff_ne.2 (hdistinct.2.2 e.1 (List.mem_map_of_mem he) key List.mem_cons_self).symm

/-- The order of proper entries does not matter to what stands under a key. -/
theorem IsProper.lookup_eq_of_perm {entries' : Entries} (h : IsProper entries)
    (hperm : entries.Perm entries') (key : String) : entries.lookup key = entries'.lookup key := by
  have h' : IsProper entries' := ⟨(hperm.map Prod.fst).nodup_iff.1 h.distinct,
    fun e he => h.values e (hperm.mem_iff.2 he)⟩
  refine Option.ext fun value => ?_
  rw [h.lookup_eq_some_iff, h'.lookup_eq_some_iff, hperm.mem_iff]

end Entries

/-! ## Readers -/

namespace Read

variable {α β : Type} {P : α → Prop} {Q : β → Prop}

/-- What a reader reads has a property. -/
def Yields (read : Read α) (P : α → Prop) : Prop := ∀ cs a rest, read cs = some (a, rest) → P a

theorem Yields.pure {a : α} (h : P a) : Yields (pure a) P := by
  intro cs b rest hread
  obtain rfl := (Prod.mk.inj (Option.some.inj hread)).1
  exact h

theorem yields_failure : Yields (failure : Read α) P := nofun

/-- What a reader reads that goes on with what another one has read. -/
theorem Yields.bind {read : Read β} {next : β → Read α} (h : Yields read Q)
    (hnext : ∀ b, Q b → Yields (next b) P) : Yields (read >>= next) P := by
  intro cs a rest hread
  obtain ⟨⟨b, left⟩, hb, ha⟩ := Option.bind_eq_some_iff.1 hread
  exact hnext b (h cs b left hb) left a rest ha

/-- What is read first may be anything. -/
theorem yields_bind {read : Read β} {next : β → Read α} (hnext : ∀ b, Yields (next b) P) :
    Yields (read >>= next) P :=
  Yields.bind (Q := fun _ => True) (fun _ _ _ _ => trivial) fun b _ => hnext b

theorem Yields.orElse {first second : Read α} (h : Yields first P) (h' : Yields second P) :
    Yields (first <|> second) P := by
  intro cs a rest hread
  have hread : (first cs <|> second cs) = some (a, rest) := hread
  cases hfirst : first cs with
  | none =>
    rw [hfirst] at hread
    exact h' cs a rest hread
  | some result =>
    rw [hfirst] at hread
    exact h cs a rest (hfirst.trans hread)

theorem Yields.lift {found : Option α} (h : ∀ a, found = some a → P a) :
    Yields (StateT.lift found) P := by
  intro cs a rest hread
  obtain ⟨b, hb, heq⟩ := Option.bind_eq_some_iff.1 hread
  obtain rfl := (Prod.mk.inj (Option.some.inj heq)).1
  exact h b hb

/-- What the rounds of a loop keep holds when the loop ends. -/
theorem Yields.loop {round : β → Read (β ⊕ α)} (hround : ∀ b, Q b → Yields (round b) (Sum.elim Q P))
    {b : β} (hb : Q b) : Yields (Toml.loop round b) P := by
  have hrounds : ∀ n b, Q b → Yields (rounds failure round n b) P := by
    intro n
    induction n with
    | zero => exact fun _ _ => yields_failure
    | succ n ih =>
      intro b hb
      refine (hround b hb).bind fun result hresult => ?_
      cases result with
      | inl b => exact ih b hresult
      | inr a => exact .pure hresult
  exact yields_bind fun _ => hrounds _ b hb

end Read

open Read

/-! ## Values -/

/-- A number is read just if it has 64 bits. -/
theorem yields_bounded {value : Int} : Yields (Number.bounded value) Value.IsProper := by
  unfold Number.bounded
  split
  · rename_i hbounds
    exact .pure (.integer hbounds.1 hbounds.2)
  · exact yields_failure

theorem yields_integer : Yields Number.integer Value.IsProper := by
  have hbounded {α : Type} {read : Read α} {value : α → Int} :
      Yields (do Number.bounded (value (← read))) Value.IsProper :=
    yields_bind fun _ => yields_bounded
  refine yields_bind fun isHexadecimal => ?_
  split
  · exact hbounded
  refine yields_bind fun isOctal => ?_
  split
  · exact hbounded
  refine yields_bind fun isBinary => ?_
  split
  · exact hbounded
  exact yields_bind fun _ => hbounded

/-- What holds no values inside it is proper. -/
theorem yields_scalar : Yields scalar Value.IsProper := by
  refine yields_bind fun cs => ?_
  split
  · exact yields_bind fun _ => .pure .string
  · exact yields_bind fun _ => .pure .string
  · exact yields_bind fun _ => .pure .boolean
  · exact yields_bind fun _ => .pure .boolean
  · have hdate : Yields Date.read Value.IsProper := yields_bind fun _ => .pure .dateTime
    have hfloat : Yields Number.float Value.IsProper := yields_bind fun _ => .pure .float
    exact hdate.orElse (hfloat.orElse yields_integer)

section Nested

variable {read : Read Value}

/-- A key with its value is put into a table that stays proper. -/
theorem yields_keyValue (hread : Yields read Value.IsProper) {kind : TableKind} {entries : Entries}
    (h : Entries.IsProper entries) : Yields (keyValue read kind entries) Entries.IsProper :=
  yields_bind fun _ => yields_bind fun _ => yields_bind fun _ => hread.bind fun _ hvalue =>
    .lift fun _ hput => Entries.isProper_put hvalue h hput

theorem yields_arrayAfter (hread : Yields read Value.IsProper) :
    Yields (arrayAfter read) Value.IsProper := by
  have hnone : ∀ v ∈ ([] : List Value), v.IsProper := List.forall_mem_nil _
  refine Yields.bind (Q := fun elements => ∀ v ∈ elements, v.IsProper) ?_ fun elements h =>
    .pure (.array h)
  refine Yields.loop (Q := fun elements => ∀ v ∈ elements, v.IsProper) (fun elements h => ?_) hnone
  refine yields_bind fun _ => yields_bind fun isClosed => ?_
  split
  · exact .pure h
  refine hread.bind fun v hv => yields_bind fun _ => yields_bind fun goesOn => ?_
  have hmore := List.forall_mem_append.2 ⟨h, List.forall_mem_singleton.2 hv⟩
  split
  · exact .pure hmore
  · exact yields_bind fun _ => .pure hmore

theorem yields_tableAfter (hread : Yields read Value.IsProper) :
    Yields (tableAfter read) Value.IsProper := by
  refine yields_bind fun _ => yields_bind fun isClosed => ?_
  split
  · exact .pure (.table List.nodup_nil (List.forall_mem_nil _))
  refine Yields.bind (Q := Entries.IsProper) ?_ fun entries h =>
    .pure (.table h.distinct h.values)
  refine Yields.loop (Q := Entries.IsProper) (fun entries h => ?_) Entries.isProper_nil
  refine (yields_keyValue hread h).bind fun entries h => ?_
  refine yields_bind fun _ => yields_bind fun goesOn => ?_
  split
  · exact .pure h
  · exact yields_bind fun _ => .pure h

end Nested

/-- Values are proper, however deep they stand inside each other. -/
theorem yields_valueWithin {depth : Nat} : Yields (valueWithin depth) Value.IsProper := by
  induction depth with
  | zero => exact yields_scalar
  | succ depth ih =>
    refine yields_bind fun isArray => ?_
    split
    · exact yields_arrayAfter ih
    refine yields_bind fun isTable => ?_
    split
    · exact yields_tableAfter ih
    · exact yields_scalar

/-! ## Documents -/

namespace Document

/-- Opening a table keeps a document proper. -/
theorem yields_header {document : Document} (h : Entries.IsProper document.entries) :
    Yields document.header fun next => Entries.IsProper next.entries := by
  refine yields_bind fun _ => yields_bind fun isElement => yields_bind fun keys => ?_
  refine yields_bind fun _ => yields_bind fun _ => ?_
  refine Yields.bind (Q := Entries.IsProper) (.lift fun after hafter => ?_) fun _ h => .pure h
  refine Entries.isProper_change (fun kind entries after h hopen => ?_) h hafter
  split at hopen
  · exact Entries.isProper_openElement h hopen
  · exact Entries.isProper_openTable h hopen

/-- A key with its value keeps a document proper. -/
theorem yields_line {document : Document} (h : Entries.IsProper document.entries) :
    Yields document.line fun next => Entries.IsProper next.entries := by
  refine yields_bind fun keys => yields_bind fun _ => yields_bind fun _ => ?_
  refine yields_valueWithin.bind fun value hvalue => yields_bind fun _ => ?_
  refine Yields.bind (Q := Entries.IsProper) (.lift fun after hafter => ?_) fun _ h => .pure h
  exact Entries.isProper_change (fun _ _ _ => Entries.isProper_put hvalue) h hafter

theorem yields_rest : Yields rest fun document => Entries.IsProper document.entries := by
  refine Yields.loop (Q := fun document => Entries.IsProper document.entries)
    (fun document h => ?_) Entries.isProper_nil
  refine yields_bind fun _ => yields_bind fun cs => ?_
  split
  · exact .pure h
  refine yields_bind fun isHeader => ?_
  split
  · exact (yields_header h).bind fun _ h => .pure h
  · exact (yields_line h).bind fun _ h => .pure h

end Document

/-- The table of a document is proper. -/
theorem isProper_of_readDocument? {text : String} {entries : Entries}
    (h : readDocument? text = some entries) : Entries.IsProper entries := by
  obtain ⟨⟨document, rest⟩, hread, hentries⟩ := Option.bind_eq_some_iff.1 h
  obtain rfl := Option.some.inj hentries
  exact yields_bind (fun _ => Document.yields_rest) text.toList document rest hread

end Toml

/-! ## Configurations -/

open Toml

/-- The order of the keys in a document does not matter to its configuration. -/
theorem Config.ofEntries?_eq_of_perm {text : String} {entries entries' : Entries}
    (h : readDocument? text = some entries) (hperm : entries.Perm entries') :
    Config.ofEntries? entries' = Config.ofEntries? entries := by
  have hlookup := (isProper_of_readDocument? h).lookup_eq_of_perm hperm
  rw [Config.ofEntries?, Config.ofEntries?, hlookup, hlookup, hlookup, hlookup]

end NoteCheck
