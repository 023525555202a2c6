/-
# Values of a configuration file

A TOML document is a table of values under keys. A table is opened by a header, by the header of
a table inside it, by a dotted key, or all at once between braces; how it was opened decides what
may still be put into it.
-/

namespace NoteCheck.Toml

/-- How a table was opened. -/
inductive TableKind where
  /-- Between braces: nothing can be added. -/
  | inline
  /-- By a header of its own. -/
  | header
  /-- By the header of a table inside it; a header of its own may follow. -/
  | implied
  /-- By a dotted key: only dotted keys can add to it. -/
  | dotted
  deriving DecidableEq, Repr

/-- A value. -/
inductive Value where
  | string (text : String)
  | integer (value : Int)
  /-- A number with a fraction or an exponent, as it is written. -/
  | float (text : String)
  | boolean (value : Bool)
  /-- A date, a time, or both, as it is written. -/
  | dateTime (text : String)
  | array (elements : List Value)
  | table (kind : TableKind) (entries : List (String × Value))
  /-- Tables that headers in double brackets open one after the other. -/
  | tables (elements : List (List (String × Value)))
  deriving Repr

/-- The entries of a table, in the order in which their keys first appear. -/
abbrev Entries := List (String × Value)

namespace Entries

/-- The entries with another value under a key. -/
def set (key : String) (value : Value) : Entries → Entries
  | [] => [(key, value)]
  | (k, v) :: entries => if k = key then (k, value) :: entries else (k, v) :: set key value entries

/-- Changes the table to which keys lead from a table on, opening tables that are not there yet.
A dotted key does not lead into tables that have headers. -/
def change (isDotted : Bool) (f : TableKind → Entries → Option Entries) :
    List String → TableKind → Entries → Option Entries
  | [], kind, entries => f kind entries
  | key :: keys, _, entries => do
    match entries.lookup key with
    | none =>
      let kind := if isDotted then .dotted else .implied
      let inner ← change isDotted f keys kind []
      return entries ++ [(key, .table kind inner)]
    | some (.table .inline _) => none
    | some (.table kind inner) =>
      if isDotted ∧ kind = .header then none
      else
        let inner ← change isDotted f keys kind inner
        return set key (.table kind inner) entries
    | some (.tables elements) =>
      let last ← change isDotted f keys .header (elements.getLastD [])
      return set key (.tables (elements.dropLast ++ [last])) entries
    | some _ => none

/-- Puts a value under a key. The key must be new, and a table is opened to dotted keys or to
plain ones, not to both. -/
def insert (isDotted : Bool) (key : String) (value : Value) (kind : TableKind)
    (entries : Entries) : Option Entries :=
  if (kind = .dotted) ↔ isDotted then
    match entries.lookup key with
    | none => some (entries ++ [(key, value)])
    | some _ => none
  else none

/-- Opens a table by a header of its own, once. -/
def openTable (key : String) (_ : TableKind) (entries : Entries) : Option Entries :=
  match entries.lookup key with
  | none => some (entries ++ [(key, .table .header [])])
  | some (.table .implied inner) => some (set key (.table .header inner) entries)
  | some _ => none

/-- Opens a further table by a header in double brackets. -/
def openElement (key : String) (_ : TableKind) (entries : Entries) : Option Entries :=
  match entries.lookup key with
  | none => some (entries ++ [(key, .tables [[]])])
  | some (.tables elements) => some (set key (.tables (elements ++ [[]])) entries)
  | some _ => none

/-- Puts a value under a key that may be dotted. -/
def put (path : List String) (key : String) (value : Value) (kind : TableKind)
    (entries : Entries) : Option Entries :=
  change true (insert (!path.isEmpty) key value) path kind entries

end Entries

end NoteCheck.Toml
