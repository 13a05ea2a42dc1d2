/-
Reading the wire forms back.

A cursor is what is left of some bytes and how many were read before.  A read either gives a value
or a fault, and moves the cursor in both cases: a read that runs out of data leaves the cursor at
the end, and one that refuses what it read leaves it after that.
-/
import WidgetLayout.Number.Single

namespace WidgetLayout.Wire

/-- Why a read failed. -/
inductive ReadFault
  /-- The data ended before the value did. -/
  | endOfData
  /-- The data ended before the announced end of a string. -/
  | truncatedString
  /-- A varint stands for 2³² or more. -/
  | varintTooLarge
  /-- The fifth byte of a varint announces another one. -/
  | varintTooLong
deriving DecidableEq, Repr

/-- The wording of a fault. -/
def ReadFault.message : ReadFault → String
  | .endOfData => "failed to fill whole buffer"
  | .truncatedString => "truncated string"
  | .varintTooLarge => "varint exceeds 32 bits"
  | .varintTooLong => "varint longer than 5 bytes"

/-- Bytes that are being read. -/
structure Cursor where
  /-- How many bytes have been read. -/
  offset : Nat
  /-- What is left. -/
  rest : List UInt8
deriving DecidableEq, Repr

namespace Cursor

/-- The cursor at the start of some bytes. -/
def start (bytes : List UInt8) : Cursor := ⟨0, bytes⟩

/-- The cursor after the next `n` bytes, or at the end. -/
def skip (c : Cursor) (n : Nat) : Cursor :=
  ⟨c.offset + (c.rest.take n).length, c.rest.drop n⟩

end Cursor

/-- A computation that reads from a cursor and may fail. -/
abbrev Reader (ε : Type) := EStateM ε Cursor

namespace Reader

/-- Reads one byte. -/
def byte : Reader ReadFault UInt8 := fun c =>
  match c.rest with
  | [] => .error .endOfData c
  | b :: rest => .ok b ⟨c.offset + 1, rest⟩

/-- Reads at most `n` more groups of a varint, of which the groups before make up `value`. -/
def varintGroups (value : Nat) : Nat → Reader ReadFault UInt32
  | 0 => throw .varintTooLong
  | n + 1 => do
    let b ← byte
    let value := value * 128 + b.toNat % 128
    if b.toNat < 128 then
      if value < 0x100000000 then return UInt32.ofNat value else throw .varintTooLarge
    else varintGroups value n

/-- Reads a varint of at most five bytes. -/
def varint : Reader ReadFault UInt32 := varintGroups 0 5

/-- Reads `n` bytes, failing with `fault` when there are fewer. -/
def bytes (n : Nat) (fault : ReadFault) : Reader ReadFault (List UInt8) := fun c =>
  let taken := c.rest.take n
  if taken.length = n then .ok taken (c.skip n) else .error fault (c.skip n)

/-- Reads a length and as many bytes. -/
def string : Reader ReadFault (List UInt8) := do
  let n ← varint
  bytes n.toNat .truncatedString

/-- Reads a single-precision number. -/
def single : Reader ReadFault Single := do
  let bs ← bytes 4 .endOfData
  return ⟨UInt32.ofNat (bs.foldr (fun b n => b.toNat + 256 * n) 0)⟩

end Reader

end WidgetLayout.Wire
