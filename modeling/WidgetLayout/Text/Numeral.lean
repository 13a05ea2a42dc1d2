/-
Numerals: texts that stand for unsigned 32-bit numbers.

A numeral is an optional plus sign and at least one decimal digit.  It is read from the left, and
the first thing that goes wrong decides the fault: a character that is no digit is reported before a
number that has grown too large at the same place.
-/

namespace WidgetLayout.Text

/-- Why a text is no unsigned 32-bit number. -/
inductive NumeralFault
  /-- There is no character at all. -/
  | empty
  /-- A character is no decimal digit. -/
  | digit
  /-- The number is 2³² or more. -/
  | overflow
deriving DecidableEq, Repr

/-- The wording of a fault. -/
def NumeralFault.message : NumeralFault → String
  | .empty => "cannot parse integer from empty string"
  | .digit => "invalid digit found in string"
  | .overflow => "number too large to fit in target type"

/-- Whether a character is one of the ten decimal digits of ASCII. -/
def isDigit (c : Char) : Bool := '0' ≤ c && c ≤ '9'

/-- The number a decimal digit stands for. -/
def digitValue (c : Char) : Nat := c.toNat - '0'.toNat

/-- The number a hexadecimal digit stands for, in either case. -/
def hexValue? (c : Char) : Option Nat :=
  if isDigit c then some (digitValue c)
  else if 'a' ≤ c ∧ c ≤ 'f' then some (c.toNat - 'a'.toNat + 10)
  else if 'A' ≤ c ∧ c ≤ 'F' then some (c.toNat - 'A'.toNat + 10)
  else none

/-- Reads digits from the left onto the number read so far. -/
def readDigits (n : Nat) : List Char → Except NumeralFault Nat
  | [] => .ok n
  | c :: cs =>
    if isDigit c then
      let n' := n * 10 + digitValue c
      if n' < 0x100000000 then readDigits n' cs else .error .overflow
    else .error .digit

/-- Reads an unsigned 32-bit number, which may begin with a plus sign. -/
def readUInt32 : List Char → Except NumeralFault UInt32
  | [] => .error .empty
  | ['+'] => .error .digit
  | '+' :: cs => UInt32.ofNat <$> readDigits 0 cs
  | cs => UInt32.ofNat <$> readDigits 0 cs

end WidgetLayout.Text
