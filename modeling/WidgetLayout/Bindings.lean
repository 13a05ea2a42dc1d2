/-
Bindings: the names a host gives to resources and to its own properties, with their numbers.

The two tables are independent.  In each the last write of a name wins, whether it came from an
insertion, from a definition `NAME=ID` or from merging in another table.
-/
import WidgetLayout.Error
import WidgetLayout.Text.Blank
import WidgetLayout.Dictionary

namespace WidgetLayout

/-- Numbers by name. -/
abbrev BindingTable := Dictionary String UInt32

namespace BindingTable

/-- Splits a definition `NAME=ID` at its first equals sign. -/
def splitDefinition (definition : String) : Option (List Char × List Char) :=
  let cs := definition.toList
  match cs.dropWhile (· ≠ '=') with
  | [] => none
  | _ :: id => some (cs.takeWhile (· ≠ '='), id)

/-- Puts the number of a definition `NAME=ID` under its name; blanks around both are left out. -/
def define (table : BindingTable) (definition : String) : Except Error BindingTable :=
  match splitDefinition definition with
  | none => .error (.invalidFormat (.definition definition))
  | some (name, id) =>
    match Text.readUInt32 (Text.trim id) with
    | .error fault => .error (.invalidFormat (.definitionId definition fault))
    | .ok n => .ok (table.put (String.ofList (Text.trim name)) n)

/-- Puts definitions one after the other, up to the first that is malformed. -/
def defineAll (table : BindingTable) : List String → Except Error BindingTable
  | [] => .ok table
  | definition :: rest => do
    let table ← define table definition
    defineAll table rest

end BindingTable

/-- The two tables of a host. -/
structure Bindings where
  resources : BindingTable
  properties : BindingTable

namespace Bindings

/-- No names at all. -/
def empty : Bindings := ⟨.empty, .empty⟩

instance : Inhabited Bindings := ⟨empty⟩

/-- Adds every entry of `other`, which wins where both have a name. -/
def merge (b other : Bindings) : Bindings :=
  ⟨b.resources.putAll other.resources.entries, b.properties.putAll other.properties.entries⟩

end Bindings

end WidgetLayout
