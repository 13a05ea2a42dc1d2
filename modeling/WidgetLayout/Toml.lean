/-
TOML documents as trees of tables, and the rules by which a document grows.

A table can be written in several places, so each table remembers how it came about.  A header may
open a table that is not there or that only stood on the way to another header, once; a dotted key
may go on with tables that dotted keys made; an inline table is complete as written.  An array of
tables grows by one table with every header of its own, and paths through it lead to its last table.
-/
import WidgetLayout.Dictionary

namespace WidgetLayout

/-- How a table came about. -/
inductive Toml.TableKind
  /-- By a header of its own, or as the root. -/
  | explicit
  /-- On the way to the table of a header. -/
  | implicit
  /-- On the way of a dotted key. -/
  | dotted
  /-- Between braces. -/
  | inline
deriving DecidableEq, Repr

/-- A TOML value. -/
inductive Toml
  | string (text : String)
  | integer (n : Int)
  /-- A floating-point number, by its text. -/
  | float (text : String)
  | boolean (b : Bool)
  /-- A date, a time or both, by their text. -/
  | dateTime (text : String)
  | array (items : List Toml)
  | table (kind : Toml.TableKind) (entries : List (String × Toml))
  /-- Tables under headers in double brackets, by their entries. -/
  | tables (items : List (List (String × Toml)))

namespace Toml

/-- A table of a document. -/
structure Table where
  kind : TableKind
  entries : List (String × Toml)

namespace Table

/-- A table without entries. -/
def empty (kind : TableKind) : Table := ⟨kind, []⟩

/-- A table as a value. -/
def value (t : Table) : Toml := .table t.kind t.entries

/-- What a table holds under a key. -/
def get? (t : Table) (key : String) : Option Toml := findEntry key t.entries

/-- Puts a value under a key. -/
def put (t : Table) (key : String) (v : Toml) : Table :=
  { t with entries := putEntry key v t.entries }

/-- Puts a value under a key that holds nothing yet. -/
def putNew? (t : Table) (key : String) (v : Toml) : Option Table :=
  match t.get? key with
  | none => some (t.put key v)
  | some _ => none

/-- Whether a path may lead through a table of a kind. -/
def passable (dotted : Bool) : TableKind → Bool
  | .explicit => !dotted
  | .implicit => true
  | .dotted => true
  | .inline => false

/--
Changes the table at the end of a path.  Tables that are missing on the way are made; the way leads
through the last table of an array of tables, and not through other values.
-/
def modify? (dotted : Bool) (change : Table → Option Table) : List String → Table → Option Table
  | [], t => change t
  | key :: path, t =>
    match t.get? key with
    | none => do
      let inner ← modify? dotted change path (empty (if dotted then .dotted else .implicit))
      return t.put key inner.value
    | some (.table kind entries) =>
      if passable dotted kind then do
        let inner ← modify? dotted change path ⟨kind, entries⟩
        return t.put key inner.value
      else none
    | some (.tables items) =>
      match items.getLast? with
      | some entries => do
        let inner ← modify? dotted change path ⟨.explicit, entries⟩
        return t.put key (.tables (items.dropLast ++ [inner.entries]))
      | none => none
    | some _ => none

/-- Puts a value under a dotted key, of which `path` is all but the last part. -/
def assign? (path : List String) (key : String) (v : Toml) (t : Table) : Option Table :=
  modify? true (fun u => if u.kind = .dotted ↔ path = [] then none else u.putNew? key v) path t

/-- Opens the table of a header at a key. -/
def openTable? (key : String) (t : Table) : Option Table :=
  match t.get? key with
  | none => some (t.put key (.table .explicit []))
  | some (.table .implicit entries) => some (t.put key (.table .explicit entries))
  | some _ => none

/-- Opens another table of an array of tables at a key. -/
def openItem? (key : String) (t : Table) : Option Table :=
  match t.get? key with
  | none => some (t.put key (.tables [[]]))
  | some (.tables items) => some (t.put key (.tables (items ++ [[]])))
  | some _ => none

end Table

/-- A document under way: its root, and the path of the header that was opened last. -/
structure Document where
  root : Table
  here : List String

namespace Document

/-- The document in which nothing was read yet. -/
def start : Document := ⟨.empty .explicit, []⟩

/-- Puts a value under a dotted key of the table that was opened last. -/
def assign? (d : Document) (path : List String) (key : String) (v : Toml) : Option Document := do
  let root ← d.root.modify? false (Table.assign? path key v) d.here
  return { d with root := root }

/-- Opens the table of a header. -/
def openTable? (d : Document) (path : List String) (key : String) : Option Document := do
  let root ← d.root.modify? false (Table.openTable? key) path
  return ⟨root, path ++ [key]⟩

/-- Opens the table of a header in double brackets. -/
def openItem? (d : Document) (path : List String) (key : String) : Option Document := do
  let root ← d.root.modify? false (Table.openItem? key) path
  return ⟨root, path ++ [key]⟩

end Document

end Toml

end WidgetLayout
