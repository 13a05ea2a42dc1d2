/-
The shortest decimal of a single-precision number.

Around every number lies the interval of reals that round to it; its ends belong to it exactly if
the significand is even.  For one digit, two digits and so on, the two decimals with that many
digits next to the number are tried: the first count for which one of them lies in the interval is
the least possible one, because if any decimal of that length lies in the interval then so does a
neighbour.  Of two neighbours that both lie in it the nearer one is taken.
-/
import WidgetLayout.Number.Single

namespace WidgetLayout.Single

/-- Which of two equally near decimals is taken. -/
inductive Tie
  | up
  | toEven
deriving DecidableEq, Repr

/-- The decimal `digits` · 10^`exponent`. -/
structure Decimal where
  digits : Nat
  exponent : Int
deriving DecidableEq, Repr

/-- The greatest e with 10^e ≤ m · 2^q, for positive m. -/
def decimalLog (m : Nat) (q : Int) : Int :=
  let e := (m.log2 + q) * 30103 / 100000
  let (a, b) := BinaryFormat.scale m 1 (-q)
  let reaches (k : Int) : Bool :=
    if 0 ≤ k then b * Nat.pow 10 k.toNat ≤ a else b ≤ a * Nat.pow 10 (-k).toNat
  if reaches (e + 1) then e + 1 else if reaches e then e else e - 1

/-- The decimal with `count` digits that rounds to m · 2^q, if there is one.  All quantities are
taken in units of 2^(q-2), so that the ends of the interval are whole; the lower end is nearer where
the spacing of numbers halves.
-/
def withDigits (tie : Tie) (m : Nat) (q : Int) (count : Nat) : Option Decimal :=
  let e := decimalLog m q + 1 - count
  let low := if m = 0x800000 ∧ -149 < q then 4 * m - 1 else 4 * m - 2
  let high := 4 * m + 2
  let u := Nat.pow 2 (q - 2).toNat * Nat.pow 10 (-e).toNat
  let b := Nat.pow 2 (2 - q).toNat * Nat.pow 10 e.toNat
  let inside (d : Nat) : Bool :=
    if m % 2 = 0 then low * u ≤ d * b && d * b ≤ high * u else low * u < d * b && d * b < high * u
  let d := 4 * m * u / b
  let r := 4 * m * u % b
  match inside d, inside (d + 1) with
  | true, true =>
    if 2 * r < b then some ⟨d, e⟩
    else if b < 2 * r then some ⟨d + 1, e⟩
    else match tie with
      | .up => some ⟨d + 1, e⟩
      | .toEven => some ⟨if d % 2 = 0 then d else d + 1, e⟩
  | true, false => some ⟨d, e⟩
  | false, true => some ⟨d + 1, e⟩
  | false, false => none

/-- The shortest decimal that rounds to m · 2^q; nine digits always suffice. -/
def shortest (tie : Tie) (m : Nat) (q : Int) : Decimal :=
  ((List.range 9).findSome? fun n => withDigits tie m q (n + 1)).getD ⟨0, 0⟩

end WidgetLayout.Single
