/-
Binary formats: which numbers m · 2^q a format holds, and the one nearest to a fraction.

A format is given by the number of bits of a significand and by the least and greatest exponent.
Everything is exact arithmetic on natural numbers: a fraction is scaled so that its whole part is
the significand, and one division with rounding decides the rest.  A half goes to the even
neighbour.
-/

namespace WidgetLayout

/-- A binary floating-point format, whose numbers are m · 2^q with m below 2^`precision`. -/
structure BinaryFormat where
  precision : Nat
  minExponent : Int
  maxExponent : Int

namespace BinaryFormat

/-- Single precision: 24 bits. -/
def single : BinaryFormat := ⟨24, -149, 104⟩

/-- Double precision: 53 bits. -/
def double : BinaryFormat := ⟨53, -1074, 971⟩

/-- A number m · 2^q. -/
structure Number where
  significand : Nat
  exponent : Int
deriving DecidableEq, Repr

/-- A number as a fraction. -/
def Number.fraction (x : Number) : Nat × Nat :=
  if 0 ≤ x.exponent then (x.significand * Nat.pow 2 x.exponent.toNat, 1)
  else (x.significand, Nat.pow 2 (-x.exponent).toNat)

/-- The quotient of two numbers rounded to a whole number, a half to the even neighbour. -/
def roundDiv (n d : Nat) : Nat :=
  let k := n / d
  let r := n % d
  if 2 * r < d then k else if d < 2 * r then k + 1 else if k % 2 = 0 then k else k + 1

/-- The fraction n / d divided by 2^q, again as a fraction. -/
def scale (n d : Nat) (q : Int) : Nat × Nat :=
  if 0 ≤ q then (n, d * Nat.pow 2 q.toNat) else (n * Nat.pow 2 (-q).toNat, d)

/-- The greatest e with 2^e ≤ n / d, for positive n and d. -/
def binaryLog (n d : Nat) : Int :=
  let e : Int := (n.log2 : Int) - d.log2
  let (a, b) := scale n d e
  if a < b then e - 1 else e

/-- The number of the format nearest to n / d; there is none if that is too large. -/
def nearest (f : BinaryFormat) (n d : Nat) : Option Number :=
  if n = 0 then some ⟨0, f.minExponent⟩
  else
    let q := max (binaryLog n d - (f.precision - 1 : Nat)) f.minExponent
    let (a, b) := scale n d q
    let m := roundDiv a b
    let r : Number :=
      if m = Nat.pow 2 f.precision then ⟨Nat.pow 2 (f.precision - 1), q + 1⟩ else ⟨m, q⟩
    if r.exponent ≤ f.maxExponent then some r else none

/--
The number of the format nearest to `digits` · 10^`exponent`.  A number whose decimal magnitude is
beyond the format is settled first, so no power of ten is ever larger than the format needs.
-/
def ofDecimal (f : BinaryFormat) (digits : Nat) (exponent : Int) : Option Number :=
  if digits = 0 then some ⟨0, f.minExponent⟩
  else
    let magnitude : Int := (Nat.toDigits 10 digits).length + exponent
    if f.maxExponent + f.precision < magnitude then none
    else if magnitude < f.minExponent - 1 then some ⟨0, f.minExponent⟩
    else if 0 ≤ exponent then f.nearest (digits * Nat.pow 10 exponent.toNat) 1
    else f.nearest digits (Nat.pow 10 (-exponent).toNat)

end BinaryFormat

end WidgetLayout
