/-
How single-precision numbers are written.

Three texts are in use, and all of them show the shortest decimal: the listing of a tree writes
every number positionally, the trace keeps a fraction and turns to an exponent for very large and
very small numbers, and JSON does the same with limits of its own and has no word for what is not
finite.  Each is one `Style`.
-/
import WidgetLayout.Number.Shortest

namespace WidgetLayout.Single

/-- The decisions that make up a way of writing numbers. -/
structure Style where
  /-- Whether a number below 10^n and not below 10^(n-1) is written positionally. -/
  positional : Int → Bool
  /-- Whether a whole number shows a fraction of zero. -/
  fraction : Bool
  /-- Whether an exponent that is not negative has a plus sign. -/
  plus : Bool
  tie : Tie
  nan : String
  infinity : String
  negativeInfinity : String

/-- Numbers in the listing of a tree. -/
def Style.listing : Style where
  positional _ := true
  fraction := false
  plus := false
  tie := .up
  nan := "NaN"
  infinity := "inf"
  negativeInfinity := "-inf"

/-- Numbers in the trace: positional from 10^-4 up to 10^16. -/
def Style.trace : Style where
  positional n := -3 ≤ n && n ≤ 16
  fraction := true
  plus := false
  tie := .up
  nan := "NaN"
  infinity := "inf"
  negativeInfinity := "-inf"

/-- Numbers in JSON: positional from 10^-6 up to 10^13. -/
def Style.json : Style where
  positional n := -5 ≤ n && n ≤ 13
  fraction := true
  plus := true
  tie := .toEven
  nan := "null"
  infinity := "null"
  negativeInfinity := "null"

/-- The digits of a number without the zeros at its end. -/
def significantDigits (n : Nat) : List Char :=
  ((Nat.toDigits 10 n).reverse.dropWhile (· = '0')).reverse

/-- A decimal point in 0.d₁d₂… · 10^n, with every zero that the place of the point needs. -/
def Style.point (style : Style) (ds : List Char) (n : Int) : List Char :=
  if n ≤ 0 then ['0', '.'] ++ List.replicate (-n).toNat '0' ++ ds
  else
    let whole := ds.take n.toNat ++ List.replicate (n.toNat - ds.length) '0'
    match ds.drop n.toNat with
    | [] => if style.fraction then whole ++ ['.', '0'] else whole
    | rest => whole ++ '.' :: rest

/-- The number 0.d₁d₂… · 10^n with one digit before its point and an exponent. -/
def Style.scientific (style : Style) (ds : List Char) (n : Int) : List Char :=
  let significand := match ds with
    | [] => []
    | [d] => [d]
    | d :: rest => d :: '.' :: rest
  let e := n - 1
  let sign := if e < 0 then ['-'] else if style.plus then ['+'] else []
  significand ++ 'e' :: sign ++ Nat.toDigits 10 e.natAbs

/-- The text of a number. -/
def Style.write (style : Style) (x : Single) : String :=
  match x.form with
  | .nan _ => style.nan
  | .infinite negative => if negative then style.negativeInfinity else style.infinity
  | .finite negative m q =>
    let sign := if negative then ['-'] else []
    if m = 0 then String.ofList (sign ++ if style.fraction then ['0', '.', '0'] else ['0'])
    else
      let r := shortest style.tie m q
      let ds := significantDigits r.digits
      let n : Int := (Nat.toDigits 10 r.digits).length + r.exponent
      String.ofList (sign ++ if style.positional n then style.point ds n else style.scientific ds n)

end WidgetLayout.Single
