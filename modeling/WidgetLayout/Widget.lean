/-
Widget trees and the record that stands for one in bytes.

The record of a widget is its tag, the records of its properties, a zero, the records of its
children and another zero.  A property is its id and the bytes of its value; a bound property has
the high bit of its id set and the number of the host's property instead of a value.
-/
import WidgetLayout.Value

namespace WidgetLayout

/-- The byte that ends the properties of a widget and the byte that ends its children. -/
def terminator : UInt8 := 0

/-- The bit of a property id that marks a binding. -/
def bindingFlag : UInt8 := 0x80

/-- Where the value of a property comes from. -/
inductive PropertyValue
  | literal (value : Value)
  /-- The value of a property of the host, by its number. -/
  | binding (id : UInt32)
deriving DecidableEq, Repr, Inhabited

/-- A property of a widget. -/
structure Property where
  name : String
  id : UInt8
  value : PropertyValue
deriving DecidableEq, Repr, Inhabited

/-- The bytes of a property. -/
def Property.encode (p : Property) : List UInt8 :=
  match p.value with
  | .literal value => p.id :: value.encode
  | .binding id => (p.id ||| bindingFlag) :: Wire.varint id

/-- A widget with everything inside it. -/
structure Widget where
  name : String
  tag : UInt8
  properties : List Property
  children : List Widget
deriving Repr, Inhabited

namespace Widget

mutual

/-- The bytes of a widget. -/
def encode : Widget → List UInt8
  | ⟨_, tag, properties, children⟩ =>
    tag :: properties.flatMap Property.encode ++ terminator :: encodeAll children ++ [terminator]

/-- The bytes of widgets one after the other. -/
def encodeAll : List Widget → List UInt8
  | [] => []
  | w :: ws => encode w ++ encodeAll ws

end

mutual

/-- How many widgets there are in a tree. -/
def count : Widget → Nat
  | ⟨_, _, _, children⟩ => 1 + countAll children

/-- How many widgets there are in several trees. -/
def countAll : List Widget → Nat
  | [] => 0
  | w :: ws => count w + countAll ws

end

mutual

/-- How deep a tree is; a widget without children has height 1. -/
def height : Widget → Nat
  | ⟨_, _, _, children⟩ => 1 + heightAll children

/-- The greatest height of several trees. -/
def heightAll : List Widget → Nat
  | [] => 0
  | w :: ws => max (height w) (heightAll ws)

end

end Widget

end WidgetLayout
