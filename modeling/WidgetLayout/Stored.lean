/-
Data that is kept in files, as JSON or as TOML.

Whoever reads such a file asks for a record of named fields, and of each field whether it is a
number, a text or a table of numbers.  Fields that nobody asks for are passed over.  In JSON a field
that is asked for may be given once only, `null` stands for a missing setting, and an array stands
for the fields of a record in order; in TOML there is none of that.
-/
import WidgetLayout.Error
import WidgetLayout.Json.Read
import WidgetLayout.Toml.Read

namespace WidgetLayout

/-- Data that can be asked for numbers, texts and tables. -/
class Stored (τ : Type) where
  /-- Whether the data says that there is nothing. -/
  isNothing : τ → Bool
  /-- A number without sign. -/
  natural? : τ → Option Nat
  /-- A text. -/
  text? : τ → Option String
  /-- The entries of a table. -/
  entries? : τ → Option (List (String × τ))

namespace Stored

variable {τ : Type} [Stored τ]

/-- The numbers below `bound` that the entries of a table hold. -/
def numbers? (bound : Nat) (data : τ) : Option (List (String × Nat)) := do
  let entries ← entries? data
  entries.mapM fun e => do
    let n ← natural? e.2
    if n < bound then some (e.1, n) else none

/-- A setting that may be missing, or may say that there is nothing. -/
def setting? {α : Type} (read? : τ → Option α) : Option τ → Option (Option α)
  | none => some none
  | some data => if isNothing data then some none else (read? data).map some

end Stored

namespace Json

/-- The number that a JSON number without point, sign and exponent stands for. -/
def natural? : Json → Option Nat
  | .number text =>
    if text.toList.all Text.isDigit then some (Single.digitsValue text.toList) else none
  | _ => none

instance : Stored Json where
  isNothing
    | .null => true
    | _ => false
  natural? := natural?
  text?
    | .string text => some text
    | _ => none
  entries?
    | .object fields => some fields
    | _ => none

/-- The field of a name; it may be missing, and it may not be given twice. -/
def fieldOnce? (fields : List (String × Json)) (name : String) : Option (Option Json) :=
  match fields.filter (·.1 = name) with
  | [] => some none
  | [field] => some (some field.2)
  | _ => none

/-- The fields of a record; `whole` says that an array has to give all of them. -/
def record? (whole : Bool) (names : List String) : Json → Option (List (Option Json))
  | .object fields => names.mapM (fieldOnce? fields)
  | .array items =>
    let missing := names.length - items.length
    if items.length ≤ names.length ∧ (whole → missing = 0) then
      some (items.map some ++ List.replicate missing none)
    else none
  | _ => none

end Json

namespace Toml

instance : Stored Toml where
  isNothing _ := false
  natural?
    | .integer n => if 0 ≤ n then some n.toNat else none
    | _ => none
  text?
    | .string text => some text
    | _ => none
  entries?
    | .table _ entries => some entries
    | _ => none

/-- The fields of a record. -/
def record (names : List String) (entries : List (String × Toml)) : List (Option Toml) :=
  names.map fun name => findEntry name entries

end Toml

/-- Reads the record that a text holds in a format. -/
def FileFormat.readRecord? {α : Type} (format : FileFormat) (whole : Bool) (names : List String)
    (ofFields? : {τ : Type} → [Stored τ] → List (Option τ) → Option α) (text : String) : Option α :=
  match format with
  | .json => do
    let document ← Json.parse? text
    let fields ← document.record? whole names
    ofFields? fields
  | .toml => do
    let entries ← Toml.parse? text
    ofFields? (Toml.record names entries)

end WidgetLayout
