/-
The texts of a schema: a table for people and a JSON document.
-/
import WidgetLayout.Json
import WidgetLayout.Schema

namespace WidgetLayout

/-- A text with blanks before it up to a width. -/
def padLeft (width : Nat) (text : String) : String :=
  String.ofList (List.replicate (width - text.length) ' ') ++ text

/-- A text with blanks after it up to a width. -/
def padRight (width : Nat) (text : String) : String :=
  text ++ String.ofList (List.replicate (width - text.length) ' ')

/-- A kind of widget as JSON. -/
def WidgetEntry.json (w : WidgetEntry) : Json :=
  .object [("name", .string w.name), ("tag", .ofNat w.tag.toNat)]

/-- A property as JSON. -/
def PropertyEntry.json (p : PropertyEntry) : Json :=
  .object [("name", .string p.name), ("id", .ofNat p.id.toNat), ("value_type", .string p.type.key)]

/-- A named value as JSON. -/
def EnumerationEntry.json (e : EnumerationEntry) : Json :=
  .object [("name", .string e.name), ("value", .ofNat e.value.toNat)]

namespace Schema

/-- A row of a table: a number and what it stands for. -/
def row (number : UInt8) (text : String) : String :=
  "   " ++ padLeft 3 (toString number) ++ "  " ++ text

/-- The lines of the table of a schema. -/
def lines (s : Schema) : List String :=
  ["Widgets:"] ++ s.widgets.map (fun w => row w.tag w.name) ++
    ["", "Properties:"] ++
      s.properties.map (fun p => row p.id (padRight 22 p.name ++ " " ++ p.type.name)) ++
    ["", "Enumeration values:"] ++ s.enumerations.map (fun e => row e.value e.name)

/-- The table of a schema. -/
def listing (s : Schema) : String := String.join (s.lines.map (· ++ "\n"))

/-- A schema as JSON. -/
def json (s : Schema) : Json :=
  .object
    [("widgets", .array (s.widgets.map WidgetEntry.json)),
     ("properties", .array (s.properties.map PropertyEntry.json)),
     ("enumerations", .array (s.enumerations.map EnumerationEntry.json))]

end Schema

end WidgetLayout
