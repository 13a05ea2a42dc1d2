/-
The texts of values: as the trace shows them, as JSON, and as the listing of a tree shows them.
-/
import WidgetLayout.Json
import WidgetLayout.Number.Style
import WidgetLayout.Text.Quoted
import WidgetLayout.Value

namespace WidgetLayout

/-- A text between quotes, with every character visible. -/
def quoted (text : String) : String := String.ofList (Text.quote text.toList)

/-- Texts with a comma and a blank between them. -/
def commaSeparated (texts : List String) : String := ", ".intercalate texts

namespace SizeItem

/-- An item in the trace. -/
def trace : SizeItem → String
  | .auto => "Auto"
  | .expand => "Expand"
  | .pixels count => s!"Pixels({count})"
  | .percentage fraction => s!"Percentage({Single.Style.trace.write fraction})"

/-- An item as JSON. -/
def json : SizeItem → Json
  | .auto => .object [("kind", .string "auto")]
  | .expand => .object [("kind", .string "expand")]
  | .pixels count => .object [("kind", .string "pixels"), ("value", .ofNat count.toNat)]
  | .percentage fraction =>
    .object [("kind", .string "percentage"), ("value", .number (Single.Style.json.write fraction))]

/-- An item in a listing; a percentage is the product of its fraction with one hundred. -/
def listing : SizeItem → String
  | .auto => "auto"
  | .expand => "expand"
  | .pixels count => toString count
  | .percentage fraction => Single.Style.listing.write (fraction * Single.hundred) ++ "%"

end SizeItem

namespace Margins

/-- Margins in a listing. -/
def listing (m : Margins) : String := commaSeparated (m.toList.map toString)

end Margins

namespace Value

/-- A value in the trace. -/
def trace : Value → String
  | .integer n => s!"Integer({n})"
  | .number x => s!"Number({Single.Style.trace.write x})"
  | .enumeration value => s!"Enumeration({value})"
  | .string text => s!"String({quoted text})"
  | .boolean b => s!"Boolean({b})"
  | .margins m => s!"Margins(Margins([{m.listing}]))"
  | .sizeList items => s!"SizeList([{commaSeparated (items.map SizeItem.trace)}])"
  | .resource id => s!"Resource({id})"

/-- What a value holds, as JSON. -/
def content : Value → Json
  | .integer n => .ofNat n.toNat
  | .number x => .number (Single.Style.json.write x)
  | .enumeration value => .ofNat value.toNat
  | .string text => .string text
  | .boolean b => .bool b
  | .margins m => .array (m.toList.map fun n => .ofNat n.toNat)
  | .sizeList items => .array (items.map SizeItem.json)
  | .resource id => .ofNat id.toNat

/-- A value as JSON, with its type. -/
def json (v : Value) : Json := .object [("type", .string v.type.key), ("value", v.content)]

/-- A value in a listing; an enumeration value is shown by its name where it has one. -/
def listing (symbols : SymbolTables) : Value → String
  | .integer n => toString n
  | .number x => Single.Style.listing.write x
  | .enumeration value => (symbols.enumerationName? value).getD s!"#{value}"
  | .string text => quoted text
  | .boolean b => if b then "true" else "false"
  | .margins m => m.listing
  | .sizeList items => commaSeparated (items.map SizeItem.listing)
  | .resource id => s!"resource(#{id})"

end Value

end WidgetLayout
