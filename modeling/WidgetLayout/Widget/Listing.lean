/-
The texts of a tree and of its bytes: an indented listing that reads like a source, a JSON document,
and lines of hexadecimal digits.
-/
import WidgetLayout.Error
import WidgetLayout.Value.Show
import WidgetLayout.Widget

namespace WidgetLayout

/-! ### Trees -/

/-- The value of a property in a listing. -/
def PropertyValue.listing (symbols : SymbolTables) : PropertyValue → String
  | .literal value => value.listing symbols
  | .binding id => s!"bind(#{id})"

/-- The value of a property as JSON. -/
def PropertyValue.json : PropertyValue → Json
  | .literal value => .object [("literal", value.json)]
  | .binding id => .object [("binding", .ofNat id.toNat)]

/-- A property as JSON. -/
def Property.json (p : Property) : Json :=
  .object [("name", .string p.name), ("id", .ofNat p.id.toNat), ("value", p.value.json)]

namespace Widget

/-- The beginning of the lines at a level of nesting. -/
def margin (level : Nat) : String := String.ofList (List.replicate (4 * level) ' ')

mutual

/-- The lines of a widget at a level of nesting. -/
def lines (symbols : SymbolTables) (level : Nat) : Widget → List String
  | ⟨name, _, properties, children⟩ =>
    (margin level ++ name ++ " \x7b") ::
      properties.map
        (fun p => margin (level + 1) ++ p.name ++ ": " ++ p.value.listing symbols ++ ";") ++
      linesAll symbols (level + 1) children ++ [margin level ++ "\x7d"]

/-- The lines of widgets one after the other. -/
def linesAll (symbols : SymbolTables) (level : Nat) : List Widget → List String
  | [] => []
  | w :: ws => lines symbols level w ++ linesAll symbols level ws

end

/-- The listing of a tree. -/
def listing (symbols : SymbolTables) (w : Widget) : String :=
  String.join ((lines symbols 0 w).map (· ++ "\n"))

mutual

/-- A tree as JSON. -/
def json : Widget → Json
  | ⟨name, tag, properties, children⟩ =>
    .object
      [("widget", .string name), ("tag", .ofNat tag.toNat),
       ("properties", .array (properties.map Property.json)),
       ("children", .array (jsonAll children))]

/-- Trees as JSON. -/
def jsonAll : List Widget → List Json
  | [] => []
  | w :: ws => json w :: jsonAll ws

end

end Widget

/-! ### Bytes -/

namespace HexListing

/-- A number in hexadecimal digits, at least eight of them. -/
def hexNumber (n : Nat) : String :=
  let digits := Nat.toDigits 16 n
  String.ofList (List.replicate (8 - digits.length) '0' ++ digits)

/-- The line of the bytes at an offset. -/
def line (offset : Nat) (bytes : List UInt8) : String :=
  hexNumber offset ++ "  " ++ " ".intercalate (bytes.map hexByte) ++ "\n"

/-- The lines of bytes that stand from an offset on, sixteen to a line. -/
def linesFrom (offset : Nat) (bytes : List UInt8) : List String :=
  match bytes with
  | [] => []
  | b :: rest => line offset (b :: rest.take 15) :: linesFrom (offset + 16) (rest.drop 15)
termination_by bytes.length
decreasing_by simp only [List.length_drop, List.length_cons]; omega

/-- Bytes as lines of hexadecimal digits, each with the offset of its first byte. -/
def render (bytes : List UInt8) : String := String.join (linesFrom 0 bytes)

end HexListing

end WidgetLayout
