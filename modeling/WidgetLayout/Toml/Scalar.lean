/-
The values of TOML that are written as one word: integers, floating-point numbers, truth values,
dates and times.

Underscores may stand between digits.  An integer has 64 bits with sign; only a decimal one has a
sign in its text, and it has no leading zeros.  A floating-point number that would round up to
infinity is refused, one that would round down to it is not.
-/
import WidgetLayout.Number.Binary
import WidgetLayout.Text.Numeral
import WidgetLayout.Toml

namespace WidgetLayout.Toml

open WidgetLayout.Text

/-! ### Numbers -/

/-- The digits of a row in which underscores may stand between digits. -/
def groupedDigits? (isDigit : Char → Bool) : List Char → Option (List Char)
  | [] => none
  | [c] => if isDigit c then some [c] else none
  | c :: d :: cs =>
    if isDigit c then
      (if d = '_' then groupedDigits? isDigit cs else groupedDigits? isDigit (d :: cs)).map (c :: ·)
    else none

/-- The value of digits of a base. -/
def valueIn (base : Nat) (ds : List Char) : Nat :=
  ds.foldl (fun n c => n * base + (hexValue? c).getD 0) 0

/-- Whether a character is a digit of a base. -/
def isDigitOf (base : Nat) (c : Char) : Bool := (hexValue? c).any (· < base)

/-- Splits the sign off a number; the flag says whether it is a minus sign. -/
def splitSign : List Char → Bool × List Char
  | '-' :: cs => (true, cs)
  | '+' :: cs => (false, cs)
  | cs => (false, cs)

/-- The digits of a whole decimal number, which has no leading zeros. -/
def wholeDigits? (cs : List Char) : Option (List Char) := do
  let ds ← groupedDigits? isDigit cs
  if ds.head? = some '0' ∧ cs.length ≠ 1 then none else some ds

/-- An integer, if it has 64 bits with sign. -/
def integerInRange? (n : Int) : Option Toml :=
  if -0x8000000000000000 ≤ n ∧ n < 0x8000000000000000 then some (.integer n) else none

/-- An integer without sign whose digits are of a base. -/
def basedInteger? (base : Nat) (cs : List Char) : Option Toml := do
  let ds ← groupedDigits? (isDigitOf base) cs
  integerInRange? (valueIn base ds)

/-- An integer. -/
def integer? (cs : List Char) : Option Toml :=
  match cs with
  | '0' :: 'x' :: ds => basedInteger? 16 ds
  | '0' :: 'o' :: ds => basedInteger? 8 ds
  | '0' :: 'b' :: ds => basedInteger? 2 ds
  | cs => do
    let (negative, cs) := splitSign cs
    let ds ← wholeDigits? cs
    let n := valueIn 10 ds
    integerInRange? (if negative then -(n : Int) else n)

/-- Whether a character begins an exponent. -/
def isExponentMark (c : Char) : Bool := c = 'e' || c = 'E'

/-- The exponent that ends a number, given with its mark. -/
def exponent? : List Char → Option Int
  | [] => some 0
  | _ :: cs => do
    let (negative, cs) := splitSign cs
    let ds ← groupedDigits? isDigit cs
    return if negative then -(valueIn 10 ds : Int) else valueIn 10 ds

/-- The digits after a point, given with the point. -/
def fraction? : List Char → Option (List Char)
  | [] => some []
  | _ :: cs => groupedDigits? isDigit cs

/-- A decimal number without sign: its digits as a whole number and the power of ten they count. -/
def decimal? (cs : List Char) : Option (Nat × Int) := do
  let exponentPart := cs.dropWhile fun c => !isExponentMark c
  let mantissa := cs.takeWhile fun c => !isExponentMark c
  let fractionPart := mantissa.dropWhile (· ≠ '.')
  if exponentPart.isEmpty ∧ fractionPart.isEmpty then none
  else
    let whole ← wholeDigits? (mantissa.takeWhile (· ≠ '.'))
    let fraction ← fraction? fractionPart
    let exponent ← exponent? exponentPart
    return (valueIn 10 (whole ++ fraction), exponent - fraction.length)

/-- A floating-point number. -/
def float? (cs : List Char) : Option Toml :=
  let (negative, magnitude) := splitSign cs
  if magnitude = ['i', 'n', 'f'] ∨ magnitude = ['n', 'a', 'n'] then some (.float (String.ofList cs))
  else do
    let (digits, exponent) ← decimal? magnitude
    if !negative ∧ BinaryFormat.double.ofDecimal digits exponent = none then none
    else some (.float (String.ofList cs))

/-! ### Dates and times -/

/-- Splits off a number of a fixed count of digits that is within bounds. -/
def splitField? (width least greatest : Nat) (cs : List Char) : Option (Nat × List Char) :=
  let ds := cs.take width
  let n := valueIn 10 ds
  if ds.length = width ∧ ds.all isDigit ∧ least ≤ n ∧ n ≤ greatest then
    some (n, cs.drop width) else none

/-- Splits off a character. -/
def splitChar? (c : Char) : List Char → Option (List Char)
  | [] => none
  | d :: cs => if d = c then some cs else none

/-- How many days a month has. -/
def daysIn (year month : Nat) : Nat :=
  if month = 2 then
    if year % 4 = 0 ∧ (year % 100 ≠ 0 ∨ year % 400 = 0) then 29 else 28
  else if month = 4 ∨ month = 6 ∨ month = 9 ∨ month = 11 then 30
  else 31

/-- Splits off a date. -/
def splitDate? (cs : List Char) : Option (List Char) := do
  let (year, cs) ← splitField? 4 0 9999 cs
  let cs ← splitChar? '-' cs
  let (month, cs) ← splitField? 2 1 12 cs
  let cs ← splitChar? '-' cs
  let (_, cs) ← splitField? 2 1 (daysIn year month) cs
  return cs

/-- Splits off the fraction of a second, if there is one. -/
def splitSecondFraction? : List Char → Option (List Char)
  | '.' :: cs => if (cs.takeWhile isDigit).isEmpty then none else some (cs.dropWhile isDigit)
  | cs => some cs

/-- Splits off a time of day; a minute may have a leap second. -/
def splitTime? (cs : List Char) : Option (List Char) := do
  let (_, cs) ← splitField? 2 0 23 cs
  let cs ← splitChar? ':' cs
  let (_, cs) ← splitField? 2 0 59 cs
  let cs ← splitChar? ':' cs
  let (_, cs) ← splitField? 2 0 60 cs
  splitSecondFraction? cs

/-- Whether a text is empty or the offset of a time zone. -/
def isOffset (cs : List Char) : Bool :=
  match cs with
  | [] => true
  | ['Z'] => true
  | ['z'] => true
  | c :: cs =>
    (c = '+' || c = '-') &&
      (do
        let (_, cs) ← splitField? 2 0 23 cs
        let cs ← splitChar? ':' cs
        let (_, cs) ← splitField? 2 0 59 cs
        return cs) = some []

/-- Whether a text is a time of day, with or without an offset. -/
def isOffsetTime (cs : List Char) : Bool := (splitTime? cs).any isOffset

/-- Whether a text is a date and nothing else. -/
def isDate (cs : List Char) : Bool := splitDate? cs = some []

/-- Whether a text is a date, a time of day, or both with a letter between them. -/
def isDateTime (cs : List Char) : Bool :=
  splitTime? cs = some [] ||
    match splitDate? cs with
    | none => false
    | some [] => true
    | some (c :: cs) => (c = 'T' || c = 't') && isOffsetTime cs

/-! ### Words -/

/-- The value that a word stands for. -/
def scalar? (word : List Char) : Option Toml :=
  if word = ['t', 'r', 'u', 'e'] then some (.boolean true)
  else if word = ['f', 'a', 'l', 's', 'e'] then some (.boolean false)
  else if isDateTime word then some (.dateTime (String.ofList word))
  else
    match float? word with
    | some v => some v
    | none => integer? word

end WidgetLayout.Toml
