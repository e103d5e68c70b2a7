import Lox.Binary64
/-!
# Decimal numbers

A natural coefficient times a power of ten, its digits, and the double nearest to it.
-/

namespace Lox

/-- The number `coefficient · 10 ^ exponent`. -/
structure Decimal where
  coefficient : Nat
  exponent : Int
  deriving DecidableEq, Repr

namespace Decimal

/-- The value of a row of digits from zero to nine. -/
def valueOfDigits (digits : List Char) : Nat :=
  digits.foldl (fun value c => 10 * value + (c.toNat - '0'.toNat)) 0

/-- How many digits a whole number may have where numbers are read from text. -/
def maxDigits : Nat := 4300

/-- The decimal with the given digits before and after the point, scaled by a power of ten. -/
def ofDigits (whole fraction : List Char) (scale : Int) : Decimal :=
  ⟨valueOfDigits (whole ++ fraction), scale - fraction.length⟩

/-- The decimal written by digits that may have a point among them. -/
def ofNumber (text : List Char) : Decimal :=
  ofDigits (text.takeWhile Char.isDigit) ((text.dropWhile Char.isDigit).drop 1) 0

/-- The digits of the coefficient. -/
def digits (d : Decimal) : List Char :=
  Nat.toDigits 10 d.coefficient

/-- The place of the decimal point, counted from the first digit: a positive decimal is at least
`10 ^ (point - 1)` and less than `10 ^ point`. -/
def point (d : Decimal) : Int :=
  d.digits.length + d.exponent

/-- The same number without zeros at the end of the coefficient. -/
def normalize (d : Decimal) : Decimal :=
  if h : d.coefficient ≠ 0 ∧ d.coefficient % 10 = 0 then
    normalize ⟨d.coefficient / 10, d.exponent + 1⟩
  else d
termination_by d.coefficient
decreasing_by omega

/-- The double nearest to a decimal. A magnitude of `10 ^ 310` or more is infinite and one below
`10 ^ (-330)` is zero, so no power of ten grows with the exponent as written. -/
def toFloat (d : Decimal) : Float :=
  if d.coefficient = 0 then 0
  else if 310 < d.point then Binary64.infinity
  else if d.point < -330 then 0
  else Binary64.nearest (d.coefficient * Nat.pow 10 d.exponent.toNat)
    (Nat.pow 10 (-d.exponent).toNat)

end Decimal

end Lox
