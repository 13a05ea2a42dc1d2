/-
The wire forms of numbers, bytes and strings.

A varint is a number in groups of seven bits, the most significant group first; every group but the
last has its high bit set, and no varint begins with an empty group, so each number has one written
form.  A string is its length as a varint and then its bytes; a single-precision number is its four
bytes, the least significant first.
-/
import WidgetLayout.Number.Single

namespace WidgetLayout.Wire

/-- The groups before the last of a number whose higher groups make up `n`. -/
def leadingGroups (n : Nat) : List UInt8 :=
  if n = 0 then [] else leadingGroups (n / 128) ++ [UInt8.ofNat (n % 128 + 128)]
termination_by n
decreasing_by omega

/-- A number in groups of seven bits. -/
def varint (n : UInt32) : List UInt8 :=
  leadingGroups (n.toNat / 128) ++ [UInt8.ofNat (n.toNat % 128)]

/-- A length, or another count, as a varint. -/
def count (n : Nat) : List UInt8 := varint (UInt32.ofNat n)

/-- Bytes with their length before them. -/
def string (bytes : List UInt8) : List UInt8 := count bytes.length ++ bytes

/-- The four bytes of a single-precision number. -/
def single (x : Single) : List UInt8 :=
  let n := x.bits.toNat
  [UInt8.ofNat n, UInt8.ofNat (n / 0x100), UInt8.ofNat (n / 0x10000), UInt8.ofNat (n / 0x1000000)]

end WidgetLayout.Wire
