/-
Decimal texts of single-precision numbers.

A text is an optional sign and then either digits with an optional point and an optional exponent,
or one of the words for infinity and for no number, in any case.  Its value is taken exactly and
rounded once; a text whose value is too large is infinite and no fault.
-/
import WidgetLayout.Number.Single
import WidgetLayout.Text.Numeral

namespace WidgetLayout.Single

open WidgetLayout.Text (isDigit digitValue)

/-- Why a text is no number. -/
inductive TextFault
  | empty
  | malformed
deriving DecidableEq, Repr

/-- The wording of a fault. -/
def TextFault.message : TextFault → String
  | .empty => "cannot parse float from empty string"
  | .malformed => "invalid float literal"

/-- The number that a row of digits stands for. -/
def digitsValue (cs : List Char) : Nat := cs.foldl (fun n c => n * 10 + digitValue c) 0

/-- Reads the exponent that ends a text: nothing, or a mark, an optional sign and digits. -/
def readExponent : List Char → Option Int
  | [] => some 0
  | c :: cs =>
    if c = 'e' ∨ c = 'E' then
      let (negative, ds) := match cs with
        | '-' :: ds => (true, ds)
        | '+' :: ds => (false, ds)
        | ds => (false, ds)
      if ds ≠ [] ∧ ds.all isDigit then
        some (if negative then -(digitsValue ds : Int) else digitsValue ds)
      else none
    else none

/-- Reads digits with an optional point and exponent, as a whole number times a power of ten. -/
def readMagnitude (cs : List Char) : Option (Nat × Int) :=
  let whole := cs.takeWhile isDigit
  let rest := cs.dropWhile isDigit
  let (fraction, rest) := match rest with
    | '.' :: rest => (rest.takeWhile isDigit, rest.dropWhile isDigit)
    | rest => ([], rest)
  if whole = [] ∧ fraction = [] then none
  else (readExponent rest).map fun e => (digitsValue (whole ++ fraction), e - fraction.length)

/-- Reads what follows the sign of a text. -/
def readUnsigned (negative : Bool) (cs : List Char) : Option Single :=
  match readMagnitude cs with
  | some (digits, exponent) => some (ofDecimal negative digits exponent)
  | none =>
    let word := String.ofList (cs.map Char.toLower)
    if word = "inf" ∨ word = "infinity" then some (ofForm (.infinite negative))
    else if word = "nan" then some (ofForm (.nan negative))
    else none

/-- Reads a single-precision number from its text. -/
def read (cs : List Char) : Except TextFault Single :=
  match cs with
  | [] => .error .empty
  | c :: rest =>
    let result := if c = '-' then readUnsigned true rest
      else if c = '+' then readUnsigned false rest
      else readUnsigned false cs
    match result with
    | some x => .ok x
    | none => .error .malformed

end WidgetLayout.Single
