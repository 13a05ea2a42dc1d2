/-
Single-precision numbers, held as the 32 bits in which they are written.

`form` says what the bits mean and `ofForm` writes a meaning back; a number that is no NaN has one
form only.  Products are exact before they are rounded once, to the nearest number, a half to even.
-/
import WidgetLayout.Number.Binary

namespace WidgetLayout

/-- A single-precision number by its bits: sign, eight bits of exponent, 23 bits of fraction. -/
structure Single where
  bits : UInt32
deriving DecidableEq, Repr, Inhabited

namespace Single

/-- What the bits of a number mean. -/
inductive Form
  | nan (negative : Bool)
  | infinite (negative : Bool)
  /-- The number `significand` · 2^`exponent`, with its sign. -/
  | finite (negative : Bool) (significand : Nat) (exponent : Int)
deriving DecidableEq, Repr

/-- The bits of a number, by sign, exponent field and fraction field. -/
def ofFields (negative : Bool) (exponent fraction : Nat) : Single :=
  ⟨UInt32.ofNat ((if negative then 0x80000000 else 0) + exponent * 0x800000 + fraction)⟩

/-- The meaning of a number. -/
def form (x : Single) : Form :=
  let n := x.bits.toNat
  let negative := decide (0x80000000 ≤ n)
  let exponent : Nat := n / 0x800000 % 256
  let fraction : Nat := n % 0x800000
  if exponent = 255 then if fraction = 0 then .infinite negative else .nan negative
  else if exponent = 0 then .finite negative fraction (-149)
  else .finite negative (fraction + 0x800000) ((exponent : Int) - 150)

/-- The number with a meaning; a NaN is the quiet one with no payload. -/
def ofForm : Form → Single
  | .nan negative => ofFields negative 255 0x400000
  | .infinite negative => ofFields negative 255 0
  | .finite negative m q =>
    if m < 0x800000 then ofFields negative 0 m
    else ofFields negative (q + 150).toNat (m - 0x800000)

/-- The number with a sign and a rounded magnitude; no magnitude means that it was too large. -/
def ofMagnitude (negative : Bool) : Option BinaryFormat.Number → Single
  | some r => ofForm (.finite negative r.significand r.exponent)
  | none => ofForm (.infinite negative)

/-- The number nearest to `digits` · 10^`exponent`, with a sign. -/
def ofDecimal (negative : Bool) (digits : Nat) (exponent : Int) : Single :=
  ofMagnitude negative (BinaryFormat.single.ofDecimal digits exponent)

/-- A NaN with its quiet bit set. -/
def quiet (x : Single) : Single := ⟨x.bits ||| 0x400000⟩

/-- The product of two numbers, rounded once; a NaN factor is kept, the first one of two. -/
def mul (x y : Single) : Single :=
  match x.form, y.form with
  | .nan _, _ => x.quiet
  | _, .nan _ => y.quiet
  | .infinite s, .infinite t => ofForm (.infinite (s != t))
  | .infinite s, .finite t m _ => if m = 0 then ofForm (.nan true) else ofForm (.infinite (s != t))
  | .finite s m _, .infinite t => if m = 0 then ofForm (.nan true) else ofForm (.infinite (s != t))
  | .finite s m p, .finite t n q =>
    let (a, b) := BinaryFormat.scale (m * n) 1 (-(p + q))
    ofMagnitude (s != t) (BinaryFormat.single.nearest a b)

instance : Mul Single := ⟨mul⟩

/-- The single-precision number nearest to one hundredth. -/
def hundredth : Single := ⟨0x3c23d70a⟩

/-- One hundred. -/
def hundred : Single := ⟨0x42c80000⟩

end Single

end WidgetLayout
