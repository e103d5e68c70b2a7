import Lox.Decimal.Shortest
/-!
# Layouts of numbers

A layout says how the digits of a double are set out: which numbers are written positionally,
whether a whole number keeps its `.0`, and how an exponent and the special values are spelled. The
digits themselves are always those of the shortest decimal that reads back.
-/

namespace Lox.Decimal

/-- The choices of a number format. -/
structure Layout where
  /-- Whether a number whose first digit counts multiples of `10 ^ e` is written without an
  exponent. -/
  positional : Int → Bool
  /-- Whether a whole number written positionally ends in `.0`. -/
  keepsPointZero : Bool
  /-- Whether an exponent that is not negative has a sign. -/
  plusSign : Bool
  /-- The least number of digits of an exponent. -/
  exponentWidth : Nat
  /-- The text for what is not a number. -/
  nan : String
  /-- The text for infinity, to which a minus is prefixed for the negative one. -/
  infinity : String

namespace Layout

/-- The digits of a decimal with its point in place and no exponent. -/
def writePositional (layout : Layout) (d : Decimal) : List Char :=
  let digits := d.digits
  if d.point ≤ 0 then
    '0' :: '.' :: List.replicate (-d.point).toNat '0' ++ digits
  else if (digits.length : Int) ≤ d.point then
    digits ++ List.replicate d.exponent.toNat '0'
      ++ (if layout.keepsPointZero then ['.', '0'] else [])
  else
    digits.take d.point.toNat ++ '.' :: digits.drop d.point.toNat

/-- An exponent with its sign and its leading zeros. -/
def writeExponent (layout : Layout) (e : Int) : List Char :=
  let digits := Nat.toDigits 10 e.natAbs
  let sign := if e < 0 then ['-'] else if layout.plusSign then ['+'] else []
  sign ++ List.replicate (layout.exponentWidth - digits.length) '0' ++ digits

/-- One digit before the point, the others after it, and the exponent. -/
def writeScientific (layout : Layout) (d : Decimal) : List Char :=
  let mantissa := match d.digits with
    | [] => []
    | [digit] => [digit]
    | digit :: digits => digit :: '.' :: digits
  mantissa ++ 'e' :: layout.writeExponent (d.point - 1)

/-- A decimal as the layout sets it out. -/
def writeDecimal (layout : Layout) (d : Decimal) : List Char :=
  if layout.positional (d.point - 1) then layout.writePositional d else layout.writeScientific d

/-- A double as the layout writes it. -/
def write (layout : Layout) (x : Float) : String :=
  let sign (negative : Bool) := if negative then "-" else ""
  match Binary64.form x with
  | .nan => layout.nan
  | .infinite negative => sign negative ++ layout.infinity
  | .finite negative m q => sign negative ++ String.ofList (layout.writeDecimal (shortest m q))

end Layout

end Lox.Decimal
