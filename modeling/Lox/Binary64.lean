/-!
# Double-precision numbers

The exact value of a double, read off its bits, and the double nearest to a ratio of naturals.
Everything is natural-number arithmetic on the encoding: a finite magnitude `m · 2 ^ q` with
`m < 2 ^ 53` and `-1074 ≤ q` is stored as `(q + 1074) · 2 ^ 52 + m`, for normal and subnormal
magnitudes alike.
-/

namespace Lox.Binary64

/-- What a double stands for. -/
inductive Form where
  | nan
  | infinite (negative : Bool)
  /-- The magnitude is `mantissa · 2 ^ exponent`. -/
  | finite (negative : Bool) (mantissa : Nat) (exponent : Int)
  deriving DecidableEq, Repr

/-- The value of a double, from its sign bit, its eleven exponent bits and its fraction bits. -/
def form (x : Float) : Form :=
  let bits := x.toBits.toNat
  let negative := decide (Nat.pow 2 63 ≤ bits)
  let exponent : Nat := bits / Nat.pow 2 52 % Nat.pow 2 11
  let fraction := bits % Nat.pow 2 52
  if exponent = 2047 then
    if fraction = 0 then .infinite negative else .nan
  else if exponent = 0 then .finite negative fraction (-1074)
  else .finite negative (Nat.pow 2 52 + fraction) ((exponent : Int) - 1075)

/-- The encoding of positive infinity, above that of every finite magnitude. -/
def infinityBits : Nat := 2047 * Nat.pow 2 52

/-- Positive infinity. -/
def infinity : Float := Float.ofBits (UInt64.ofNat infinityBits)

/-- The quotient rounded to the nearest natural number; a half goes to the even neighbour. -/
def roundDiv (num den : Nat) : Nat :=
  let whole := num / den
  let rest := num % den
  if 2 * rest < den then whole
  else if den < 2 * rest then whole + 1
  else whole + whole % 2

/-- The exponent of the greatest power of two that is at most a ratio of positive naturals. -/
def floorLog2 (num den : Nat) : Int :=
  let guess : Int := (num.log2 : Int) - den.log2
  if den * Nat.pow 2 guess.toNat ≤ num * Nat.pow 2 (-guess).toNat then guess else guess - 1

/-- The double nearest to a ratio of naturals; a tie goes to the even mantissa, and a ratio beyond
the largest finite double by half a unit or more becomes infinity. -/
def nearest (num den : Nat) : Float :=
  if num = 0 then 0
  else
    let exponent := max (floorLog2 num den - 52) (-1074)
    let mantissa := roundDiv (num * Nat.pow 2 (-exponent).toNat) (den * Nat.pow 2 exponent.toNat)
    let bits := (exponent + 1074).toNat * Nat.pow 2 52 + mantissa
    Float.ofBits (UInt64.ofNat (min infinityBits bits))

/-- The double nearest to a whole number, unless it is too large for one. -/
def ofInt? (n : Int) : Option Float :=
  let x := nearest n.natAbs 1
  if x == infinity then none else some (if n < 0 then -x else x)

end Lox.Binary64
