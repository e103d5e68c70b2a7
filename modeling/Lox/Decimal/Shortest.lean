import Lox.Decimal.Basic
/-!
# The shortest decimal that reads back

Of all decimals that round to a given double, the one with the fewest digits, and of those the one
nearest to it. The numbers that round to the magnitude `m · 2 ^ q` form an interval around it. Its
ends lie halfway to the two neighbouring doubles and belong to it exactly if `m` is even. For
one digit, two digits, and so on, the two points of that decimal grid next to the value are tested
in exact arithmetic, and the first grid with a point inside gives the answer.
-/

namespace Lox.Decimal

/-- The numbers that round to a double, in quarters of its unit in the last place. -/
structure RoundingInterval where
  low : Nat
  value : Nat
  high : Nat
  /-- Whether the two ends round to the value as well. -/
  closed : Bool

/-- The interval around `m · 2 ^ q`, in units of `2 ^ (q - 2)`. Below a power of two the next double
is half as far away. -/
def RoundingInterval.around (m : Nat) (q : Int) : RoundingInterval where
  low := if m = Nat.pow 2 52 ∧ q ≠ -1074 then 4 * m - 1 else 4 * m - 2
  value := 4 * m
  high := 4 * m + 2
  closed := m % 2 == 0

/-- Whether the ratio `num / den`, in the interval's units, rounds to its value. -/
def RoundingInterval.holds (i : RoundingInterval) (num den : Nat) : Bool :=
  if i.closed then decide (i.low * den ≤ num) && decide (num ≤ i.high * den)
  else decide (i.low * den < num) && decide (num < i.high * den)

/-- The multiple of `10 ^ k` nearest to `m · 2 ^ q` among the two next to it that round to it; of
two equally near the even one. -/
def onGrid? (m : Nat) (q k : Int) : Option Decimal :=
  let i := RoundingInterval.around m q
  let unit := Nat.pow 2 (q - 2).toNat * Nat.pow 10 (-k).toNat
  let step := Nat.pow 2 (2 - q).toNat * Nat.pow 10 k.toNat
  let value := i.value * unit
  let below := value / step
  let above := below + 1
  let toBelow := value - below * step
  let toAbove := above * step - value
  match i.holds (below * step) unit, i.holds (above * step) unit with
  | true, true =>
    if toBelow < toAbove then some ⟨below, k⟩
    else if toAbove < toBelow then some ⟨above, k⟩
    else some ⟨below + below % 2, k⟩
  | true, false => some ⟨below, k⟩
  | false, true => some ⟨above, k⟩
  | false, false => none

/-- The decimal that is exactly `m · 2 ^ q`. -/
def exact (m : Nat) (q : Int) : Decimal :=
  ⟨m * Nat.pow 2 q.toNat * Nat.pow 5 (-q).toNat, min q 0⟩

/-- The place of the decimal point of `m · 2 ^ q`, counted from its first digit. -/
def magnitude (m : Nat) (q : Int) : Int :=
  let scaled := m * Nat.pow 2 q.toNat * Nat.pow 10 330 / Nat.pow 2 (-q).toNat
  (Nat.toDigits 10 scaled).length - 330

/-- The shortest decimal that rounds to `m · 2 ^ q`. -/
def shortest (m : Nat) (q : Int) : Decimal :=
  if m = 0 then ⟨0, 0⟩
  else
    let first := magnitude m q
    let found := (List.range 17).findSome? fun n => onGrid? m q (first - (n + 1 : Nat))
    (found.getD (exact m q)).normalize

end Lox.Decimal
