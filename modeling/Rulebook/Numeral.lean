/-!
# Whole numbers and decimals

Whole numbers are held in signed 64-bit words, and rules spell them in decimal. Here are the range
of the words, the reader of numerals, and the writer of decimals: a number of limited precision is
written with the fewest digits that stand for it.
-/

namespace Rulebook

/-! ## Integers in 64 bits

The words hold the whole numbers from `-2⁶³` to `2⁶³ - 1`. An integer from outside either
fits the range, or does not, or is moved to the nearest limit. -/

/-- The least 64-bit integer. -/
def int64Min : Int := -0x8000000000000000

/-- The greatest 64-bit integer. -/
def int64Max : Int := 0x7fffffffffffffff

/-- An integer as a 64-bit word, if it fits. -/
def int64? (n : Int) : Option Int64 :=
  if int64Min ≤ n ∧ n ≤ int64Max then some (Int64.ofInt n) else none

/-- An integer as a 64-bit word; one out of range becomes the limit on its side. -/
def clampInt64 (n : Int) : Int64 := Int64.ofInt (max int64Min (min int64Max n))

/-! ## Numerals

A numeral is at most one sign followed by at least one digit, and nothing else. The digits are
the ten of ASCII and leading zeros are allowed. It denotes a number only if its value fits a
64-bit word. -/

namespace Numeral

/-- The value of a digit. -/
def digitValue (c : Char) : Nat := c.toNat - '0'.toNat

/-- The number that a list of digits denotes, the first counting most. -/
def digitsValue (digits : List Char) : Nat :=
  digits.foldl (fun n c => 10 * n + digitValue c) 0

/-- The value of one or more digits. -/
def natural? (cs : List Char) : Option Nat :=
  if cs ≠ [] ∧ cs.all Char.isDigit then some (digitsValue cs) else none

/-- The value of a numeral. -/
def integer? : List Char → Option Int
  | '+' :: cs => (natural? cs).map Int.ofNat
  | '-' :: cs => (natural? cs).map fun n => -(n : Int)
  | cs => (natural? cs).map Int.ofNat

/-- The 64-bit integer that a text denotes. -/
def read? (s : String) : Option Int64 := (integer? s.toList).bind int64?

end Numeral

/-! ## The shortest decimal in an interval

A number of limited precision stands for every real that rounds to it. Its shortest decimal is
the one with the fewest digits among those reals, and the nearest to the number of these; of two
equally near ones it is the greater. -/

/-- The decimal `coefficient · 10 ^ exponent`. -/
structure Decimal where
  coefficient : Nat
  exponent : Int
  deriving DecidableEq

/-- The positive reals that round to `value / denominator`. -/
structure RoundingInterval where
  low : Nat
  value : Nat
  high : Nat
  denominator : Nat
  /-- Whether the two ends belong to the interval. -/
  closed : Bool

namespace RoundingInterval

/-- The number of decimal digits that a natural number is written with. -/
def digitCount (n : Nat) : Nat := (Nat.toDigits 10 n).length

/-- The power of ten that the value's first digit counts. -/
def leadingExponent (i : RoundingInterval) : Int :=
  if i.denominator ≤ i.value then digitCount (i.value / i.denominator) - 1
  else -digitCount ((i.denominator - 1) / i.value)

/-- A numerator of the interval over the common denominator with `10 ^ exponent`. -/
def scaled (exponent : Int) (numerator : Nat) : Nat := numerator * Nat.pow 10 (-exponent).toNat

/-- One step of the grid of multiples of `10 ^ exponent`, over the same denominator. -/
def gridStep (i : RoundingInterval) (exponent : Int) : Nat :=
  i.denominator * Nat.pow 10 exponent.toNat

/-- Whether a decimal lies in the interval. -/
def contains (i : RoundingInterval) (d : Decimal) : Bool :=
  let x := d.coefficient * i.gridStep d.exponent
  let low := scaled d.exponent i.low
  let high := scaled d.exponent i.high
  if i.closed then low ≤ x ∧ x ≤ high else low < x ∧ x < high

/-- The greatest multiple of `10 ^ exponent` that is at most the value. -/
def below (i : RoundingInterval) (exponent : Int) : Decimal :=
  ⟨scaled exponent i.value / i.gridStep exponent, exponent⟩

/-- The least multiple of `10 ^ exponent` that is more than the value. -/
def above (i : RoundingInterval) (exponent : Int) : Decimal :=
  ⟨(i.below exponent).coefficient + 1, exponent⟩

/-- Whether the value is less than half a step above the multiple below it. -/
def isNearBelow (i : RoundingInterval) (exponent : Int) : Bool :=
  2 * (scaled exponent i.value % i.gridStep exponent) < i.gridStep exponent

/-- The multiple of `10 ^ exponent` in the interval that is nearest to the value. If the interval
holds any multiple, it holds one of the value's two neighbours. -/
def onGrid? (i : RoundingInterval) (exponent : Int) : Option Decimal :=
  let below := i.below exponent
  let above := i.above exponent
  match i.contains below, i.contains above with
  | true, true => some (if i.isNearBelow exponent then below else above)
  | true, false => some below
  | false, true => some above
  | false, false => none

/-- The decimal of at most `digits` digits in the interval with the fewest of them, or the value
cut to `digits` digits if there is none. -/
def shortest (i : RoundingInterval) (digits : Nat) : Decimal :=
  let exponents := (List.range digits).map fun n : Nat => i.leadingExponent - (n : Int)
  (exponents.findSome? i.onGrid?).getD (i.below (i.leadingExponent + 1 - (digits : Int)))

end RoundingInterval

/-! ## Writing decimals

A layout says which decimals are written positionally (`0.25`, `1200`) and which with an exponent
(`1.2e-7`), and what marks a whole number. -/

namespace Decimal

/-- How decimals are written. -/
structure Layout where
  /-- Whether a decimal is written positionally, by the power of ten of its first digit. -/
  isPositional : Int → Bool
  /-- What follows the digits of a whole number in positional form. -/
  wholeMark : String

/-- The digits of a decimal without the zeros they end in. -/
def significantDigits (d : Decimal) : List Char :=
  ((Nat.toDigits 10 d.coefficient).reverse.dropWhile (· = '0')).reverse

/-- The power of ten that the first digit of a decimal counts. -/
def leadingExponent (d : Decimal) : Int :=
  (Nat.toDigits 10 d.coefficient).length - 1 + d.exponent

namespace Layout

/-- Digits in positional form, the first of them counting `10 ^ leading`. -/
def positional (layout : Layout) (digits : List Char) (leading : Int) : String :=
  if leading < 0 then
    "0." ++ String.ofList (List.replicate (-leading - 1).toNat '0' ++ digits)
  else
    let wholeLength := leading.toNat + 1
    let padding := List.replicate (wholeLength - digits.length) '0'
    let whole := String.ofList (digits.take wholeLength ++ padding)
    match digits.drop wholeLength with
    | [] => whole ++ layout.wholeMark
    | fraction => whole ++ "." ++ String.ofList fraction

/-- Digits with an exponent, the first of them before the point. -/
def exponential (digits : List Char) (leading : Int) : String :=
  let point := if digits.length ≤ 1 then "" else "."
  String.ofList (digits.take 1) ++ point ++ String.ofList (digits.drop 1) ++ "e" ++ toString leading

/-- The text of a decimal. -/
def write (layout : Layout) (d : Decimal) : String :=
  if d.coefficient = 0 then "0" ++ layout.wholeMark
  else if layout.isPositional d.leadingExponent then
    layout.positional d.significantDigits d.leadingExponent
  else exponential d.significantDigits d.leadingExponent

end Layout

end Decimal

end Rulebook
