import Rulebook.Numeral

/-!
# Numbers in the binary64 format

A binary64 number is its pattern of 64 bits. Every finite one is a whole number of *units* of
`2⁻¹⁰⁷⁴`, the least positive magnitude, so sums, comparisons and decimal digits are found in
exact integer arithmetic. The infinities take the magnitude `2¹⁰²⁴`, above every finite number,
so the same comparison serves them.
-/

namespace Rulebook

/-- A binary64 number, given by its bits. Equality is equality of bits: it tells the two zeros
apart and holds of a NaN and itself. -/
structure Binary64 where
  bits : UInt64
  deriving DecidableEq, Hashable

namespace Binary64

/-- The pattern of the sign bit alone, which is negative zero. -/
def signBit : Nat := 0x8000000000000000

/-- The pattern of positive infinity: all exponent bits set, no fraction bit. -/
def infinityBits : Nat := 0x7ff0000000000000

/-- The bit that tells quiet NaNs from signalling ones. -/
def quietBit : Nat := 0x0008000000000000

/-- The number of patterns of the fifty-two fraction bits. -/
def fractionCount : Nat := 0x0010000000000000

/-- The number of units in 1. -/
def unitsPerOne : Nat := Nat.pow 2 1074

/-- The number with a given magnitude pattern and sign. -/
def ofMagnitudeBits (negative : Bool) (magnitude : Nat) : Binary64 :=
  ⟨UInt64.ofNat (if negative then signBit + magnitude else magnitude)⟩

/-- The bits below the sign bit. -/
def magnitudeBits (x : Binary64) : Nat := x.bits.toNat % signBit

/-- Whether the sign bit is set. -/
def isNegative (x : Binary64) : Bool := signBit ≤ x.bits.toNat

/-- A NaN has every exponent bit and some fraction bit set. -/
def isNaN (x : Binary64) : Bool := infinityBits < x.magnitudeBits

/-- Whether `x` is one of the two infinities. -/
def isInfinite (x : Binary64) : Bool := x.magnitudeBits = infinityBits

/-- The eleven exponent bits. -/
def exponentField (x : Binary64) : Nat := x.magnitudeBits / fractionCount

/-- The fifty-two fraction bits. -/
def fractionField (x : Binary64) : Nat := x.magnitudeBits % fractionCount

/-- The spacing of the numbers with the exponent of `x`, in units. -/
def spacing (x : Binary64) : Nat := Nat.pow 2 (x.exponentField - 1)

/-- The magnitude of a number that is no NaN, in units. -/
def magnitude (x : Binary64) : Nat :=
  (if x.exponentField = 0 then x.fractionField else fractionCount + x.fractionField) * x.spacing

/-- The value of a number that is no NaN, in units. -/
def units (x : Binary64) : Int :=
  if x.isNegative then -(x.magnitude : Int) else x.magnitude

/-! ## Rounded arithmetic on binary64 numbers

A sum is formed exactly and then rounded to the nearest number, a half to the one with an even
last bit. An operation on a NaN answers that NaN made quiet, the first of two; the difference of
two like infinities has no value and answers `invalid`. -/

/-- The quotient `n / d` rounded to the nearest whole number, halves to the even one. -/
def divNearestEven (n d : Nat) : Nat :=
  let q := n / d
  let r := n % d
  if d < 2 * r ∨ (2 * r = d ∧ q % 2 = 1) then q + 1 else q

/-- The magnitude pattern nearest to `n` units. Past 53 bits the low bits are rounded off and
their number goes to the exponent; a carry out of the fraction raises the exponent by itself. -/
def magnitudeBitsOfUnits (n : Nat) : Nat :=
  let excess := Nat.log2 n + 1 - 53
  min infinityBits (excess * fractionCount + divNearestEven n (Nat.pow 2 excess))

/-- The number nearest to `n` units; zero is positive. -/
def ofUnits (n : Int) : Binary64 :=
  ofMagnitudeBits (n < 0) (magnitudeBitsOfUnits n.natAbs)

/-- The number nearest to an integer. -/
def ofInt (n : Int) : Binary64 := ofUnits (n * unitsPerOne)

/-- The NaN that answers an operation without a value. -/
def invalid : Binary64 := ofMagnitudeBits true (infinityBits + quietBit)

/-- A NaN with its quiet bit set. -/
def quiet (x : Binary64) : Binary64 := ⟨x.bits ||| UInt64.ofNat quietBit⟩

/-- The number of the other sign. -/
def neg (x : Binary64) : Binary64 := ⟨x.bits ^^^ UInt64.ofNat signBit⟩

/-- The rounded sum of two numbers neither of which is a NaN. An exact zero is negative only if
both operands are. -/
def addNumbers (x y : Binary64) : Binary64 :=
  if x.isInfinite then
    if y.isInfinite && x.isNegative != y.isNegative then invalid else x
  else if y.isInfinite then y
  else if x.units + y.units = 0 then ofMagnitudeBits (x.isNegative && y.isNegative) 0
  else ofUnits (x.units + y.units)

/-- The rounded sum. -/
def add (x y : Binary64) : Binary64 :=
  if x.isNaN then x.quiet else if y.isNaN then y.quiet else addNumbers x y

/-- The rounded difference. -/
def sub (x y : Binary64) : Binary64 :=
  if x.isNaN then x.quiet else if y.isNaN then y.quiet else addNumbers x y.neg

/-- Whether `x` is less than `y`; a NaN is not comparable. -/
def lt (x y : Binary64) : Bool := !x.isNaN && !y.isNaN && decide (x.units < y.units)

/-- Whether `x` and `y` are equal as numbers: the zeros are, a NaN is equal to nothing. -/
def eq (x y : Binary64) : Bool := !x.isNaN && !y.isNaN && decide (x.units = y.units)

/-- The 64-bit integer nearest to `x` toward zero: a value out of range becomes the limit on its
side, and a NaN zero. -/
def truncate (x : Binary64) : Int64 :=
  if x.isNaN then 0 else clampInt64 (x.units.tdiv unitsPerOne)

/-- The 64-bit integer that `x` is exactly equal to, if there is one. -/
def whole? (x : Binary64) : Option Int64 :=
  if !x.isNaN && decide (x.units % unitsPerOne = 0) then int64? (x.units / unitsPerOne) else none

/-! ## The text of binary64 numbers

A number is written with the fewest digits that read back as it. Messages and displayed values
use two layouts, and both keep the sign of zero. -/

/-- The last bit of an even pattern wins a tie, so the ends of the interval then belong to it. -/
def hasEvenLastBit (x : Binary64) : Bool := x.magnitudeBits % 2 = 0

/-- Below a power of two the numbers are spaced half as wide as above it. -/
def spacingBelow (x : Binary64) : Nat :=
  if x.fractionField = 0 ∧ 1 < x.exponentField then x.spacing / 2 else x.spacing

/-- The reals that round to the magnitude of a finite number, in half units so that the ends are
whole. -/
def roundingInterval (x : Binary64) : RoundingInterval where
  low := 2 * x.magnitude - x.spacingBelow
  value := 2 * x.magnitude
  high := 2 * x.magnitude + x.spacing
  denominator := 2 * unitsPerOne
  closed := x.hasEvenLastBit

/-- Seventeen digits tell any two numbers apart. -/
def digitLimit : Nat := 17

/-- The shortest decimal that reads back as the magnitude of a finite number. -/
def toDecimal (x : Binary64) : Decimal :=
  if x.magnitude = 0 then ⟨0, 0⟩ else x.roundingInterval.shortest digitLimit

/-- Displayed values are always positional, and a whole number has no point. -/
def displayLayout : Decimal.Layout := ⟨fun _ => true, ""⟩

/-- Messages show the digit after the point of a whole number, and an exponent below `10⁻⁴` and
from `10¹⁶` on. -/
def detailLayout : Decimal.Layout := ⟨fun leading => -4 ≤ leading ∧ leading < 16, ".0"⟩

/-- The text of a number in a layout. -/
def text (x : Binary64) (layout : Decimal.Layout) : String :=
  let sign := if x.isNegative then "-" else ""
  if x.isNaN then "NaN"
  else if x.isInfinite then sign ++ "inf"
  else sign ++ layout.write x.toDecimal

end Binary64

end Rulebook
