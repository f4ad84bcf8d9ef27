import FuzzyLogic.Binary64.Round

/-!
# Decimal/Basic — decimal numerals and the doubles they denote

A `Decimal` is a whole number of digits and a power of ten.  `Decimal.toMagnitude` is the double
nearest to it; far outside the range of the doubles the answer is known without the power of ten,
so an exponent of any size is read at once.
-/

namespace FuzzyLogic

/-- The nonnegative number `digits · 10 ^ exponent`. -/
structure Decimal where
  digits : Nat
  exponent : Int
  deriving DecidableEq

namespace Decimal

/-- The factor `10 ^ e` of a numerator: one for a negative `e`. -/
def raising (e : Int) : Nat := Nat.pow 10 e.toNat

/-- The factor `10 ^ (-e)` of a denominator: one for a positive `e`. -/
def lowering (e : Int) : Nat := Nat.pow 10 (-e).toNat

/-- The decimal digits of a number, most significant first. -/
def digitList (n : Nat) : List Char := Nat.toDigits 10 n

/-- The number a list of decimal digits writes. -/
def ofDigitList (ds : List Char) : Nat := Nat.ofDigitChars 10 ds 0

/-- The place of the leading digit: the number lies below `10 ^ leading`. -/
def leading (d : Decimal) : Int := (digitList d.digits).length + d.exponent

/-- The nearest double.  Below `10⁻⁴⁰⁰` that is zero, from `10⁴⁰⁰` on it is infinity. -/
def toMagnitude (d : Decimal) : Magnitude :=
  if d.digits = 0 || d.leading ≤ -400 then .zero
  else if 400 < d.leading then .top
  else .nearest (d.digits * raising d.exponent * unitsPerOne) (lowering d.exponent)

/-- The same number without zeros at the end of its digits. -/
def trimmed (d : Decimal) : Decimal :=
  if h : d.digits ≠ 0 ∧ d.digits % 10 = 0 then
    trimmed ⟨d.digits / 10, d.exponent + 1⟩
  else d
termination_by d.digits
decreasing_by omega

end Decimal

end FuzzyLogic
