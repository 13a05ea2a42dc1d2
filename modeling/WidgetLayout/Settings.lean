/-
Settings that are kept in a file: defaults for the command line.
-/
import WidgetLayout.Stored

namespace WidgetLayout

/-- Settings, each of which may be missing. -/
structure Settings where
  /-- The path of a file with bindings. -/
  bindings : Option String
  /-- How deep widgets may be nested. -/
  maxDepth : Option Nat
  /-- How many bytes a source may have. -/
  maxSourceSize : Option Nat
  /-- The directory for output without a path of its own. -/
  outputDirectory : Option String
deriving DecidableEq, Repr

namespace Settings

/-- No settings at all. -/
def empty : Settings := ⟨none, none, none, none⟩

instance : Inhabited Settings := ⟨empty⟩

/-- The fields of stored settings. -/
def fieldNames : List String :=
  ["bindings", "max_nesting_depth", "max_source_size", "output_directory"]

/-- A number of 64 bits. -/
def size? {τ : Type} [Stored τ] (data : τ) : Option Nat := do
  let n ← Stored.natural? data
  if n < 0x10000000000000000 then some n else none

/-- Settings from their fields. -/
def ofFields? {τ : Type} [Stored τ] : List (Option τ) → Option Settings
  | [bindings, maxDepth, maxSourceSize, outputDirectory] => do
    let bindings ← Stored.setting? Stored.text? bindings
    let maxDepth ← Stored.setting? size? maxDepth
    let maxSourceSize ← Stored.setting? size? maxSourceSize
    let outputDirectory ← Stored.setting? Stored.text? outputDirectory
    return ⟨bindings, maxDepth, maxSourceSize, outputDirectory⟩
  | _ => none

/-- Reads settings from a text. -/
def parse (format : FileFormat) (text : String) : Except Error Settings :=
  match format.readRecord? true fieldNames ofFields? text with
  | some s => .ok s
  | none => .error (.invalidFormat (.configContent format))

end Settings

end WidgetLayout
