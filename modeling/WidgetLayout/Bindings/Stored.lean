/-
Bindings that are kept in a file: a record of two tables, each of which may be missing.
-/
import WidgetLayout.Bindings
import WidgetLayout.Stored

namespace WidgetLayout

/-- A table of numbers of 32 bits; of a name that is given twice the last number counts. -/
def BindingTable.ofStored? {τ : Type} [Stored τ] : Option τ → Option BindingTable
  | none => some .empty
  | some data => do
    let numbers ← Stored.numbers? 0x100000000 data
    return .ofList (numbers.map fun e => (e.1, UInt32.ofNat e.2))

namespace Bindings

/-- The fields of stored bindings. -/
def fieldNames : List String := ["resources", "properties"]

/-- Bindings from their fields. -/
def ofFields? {τ : Type} [Stored τ] : List (Option τ) → Option Bindings
  | [resources, properties] => do
    let resources ← BindingTable.ofStored? resources
    let properties ← BindingTable.ofStored? properties
    return ⟨resources, properties⟩
  | _ => none

/-- Reads bindings from a text. -/
def parse (format : FileFormat) (text : String) : Except Error Bindings :=
  match format.readRecord? false fieldNames ofFields? text with
  | some b => .ok b
  | none => .error (.invalidFormat (.bindingsContent format))

end Bindings

end WidgetLayout
