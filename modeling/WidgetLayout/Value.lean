/-
Values of properties, and their written form.

What a value looks like in bytes follows from its type alone, so a reader that knows the type needs
no mark to find its end.  The items of a size list are of four kinds, named by two bits each; those
bits come first, four items to a byte with the first item in the low bits, and then what the items
carry.
-/
import WidgetLayout.Schema
import WidgetLayout.Text.Utf8
import WidgetLayout.Wire.Write

namespace WidgetLayout

/-- The size of a row or a column. -/
inductive SizeItem
  | auto
  | expand
  | pixels (count : UInt32)
  /-- A part of the whole; 25% is 0.25. -/
  | percentage (fraction : Single)
deriving DecidableEq, Repr, Inhabited

namespace SizeItem

/-- The two bits that name the kind of an item. -/
def tag : SizeItem → UInt8
  | .auto => 0
  | .expand => 1
  | .pixels _ => 2
  | .percentage _ => 3

/-- What an item carries, in bytes. -/
def payload : SizeItem → List UInt8
  | .auto => []
  | .expand => []
  | .pixels count => Wire.varint count
  | .percentage fraction => Wire.single fraction

/-- Four tags in one byte, the first in the low bits. -/
def packGroup (a b c d : UInt8) : UInt8 := a ||| b <<< 2 ||| c <<< 4 ||| d <<< 6

/-- The tags of a list of items, four to a byte; what is missing in the last byte is zero. -/
def packTags : List SizeItem → List UInt8
  | [] => []
  | [a] => [packGroup a.tag 0 0 0]
  | [a, b] => [packGroup a.tag b.tag 0 0]
  | [a, b, c] => [packGroup a.tag b.tag c.tag 0]
  | a :: b :: c :: d :: rest => packGroup a.tag b.tag c.tag d.tag :: packTags rest

end SizeItem

/-- Four margins, in the order in which they are written. -/
structure Margins where
  first : UInt32
  second : UInt32
  third : UInt32
  fourth : UInt32
deriving DecidableEq, Repr, Inhabited

namespace Margins

/-- The margins as a list. -/
def toList (m : Margins) : List UInt32 := [m.first, m.second, m.third, m.fourth]

/-- One value stands for all four margins, two stand for both pairs; no other count but four will
do. -/
def broadcast? : List UInt32 → Option Margins
  | [a] => some ⟨a, a, a, a⟩
  | [a, b] => some ⟨a, b, a, b⟩
  | [a, b, c, d] => some ⟨a, b, c, d⟩
  | _ => none

end Margins

/-- The value of a property. -/
inductive Value
  | integer (n : UInt32)
  | number (x : Single)
  | enumeration (value : UInt8)
  | string (text : String)
  | boolean (b : Bool)
  | margins (m : Margins)
  | sizeList (items : List SizeItem)
  /-- A resource, by the number the host gave it. -/
  | resource (id : UInt32)
deriving DecidableEq, Repr, Inhabited

namespace Value

/-- The type of a value. -/
def type : Value → ValueType
  | .integer _ => .integer
  | .number _ => .number
  | .enumeration _ => .enumeration
  | .string _ => .string
  | .boolean _ => .boolean
  | .margins _ => .margins
  | .sizeList _ => .sizeList
  | .resource _ => .resource

/-- A count says how many bytes or items a value has, so there are fewer than 2³² of them. -/
def Fits : Value → Prop
  | .string text => (Text.Utf8.encode text.toList).length < 0x100000000
  | .sizeList items => items.length < 0x100000000
  | _ => True

instance (v : Value) : Decidable v.Fits :=
  match v with
  | .string text =>
      inferInstanceAs (Decidable ((Text.Utf8.encode text.toList).length < 0x100000000))
  | .sizeList items => inferInstanceAs (Decidable (items.length < 0x100000000))
  | .integer _ => isTrue trivial
  | .number _ => isTrue trivial
  | .enumeration _ => isTrue trivial
  | .boolean _ => isTrue trivial
  | .margins _ => isTrue trivial
  | .resource _ => isTrue trivial

/-- The written form of a value that fits. -/
def encode : Value → List UInt8
  | .integer n => Wire.varint n
  | .number x => Wire.single x
  | .enumeration value => [value]
  | .string text => Wire.string (Text.Utf8.encode text.toList)
  | .boolean b => [if b then 1 else 0]
  | .margins m => m.toList.flatMap Wire.varint
  | .sizeList items =>
    Wire.count items.length ++ SizeItem.packTags items ++ items.flatMap SizeItem.payload
  | .resource id => Wire.varint id

end Value

end WidgetLayout
