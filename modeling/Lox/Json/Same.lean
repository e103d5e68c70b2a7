import Lox.Binary64
import Lox.Json.Basic
/-!
# Sameness of JSON values

When two values that are written differently stand for the same. Numbers are the same if they are
equal, whether they are whole numbers or doubles, and a truth value is the same as one or zero; the
constant that is not a number is the same as itself. Arrays are the same item by item, and objects
field by field in any order.
-/

namespace Lox.Json

/-- A number apart from the way in which it is written. -/
inductive Quantity where
  | whole (n : Int)
  /-- A double that is no whole number. -/
  | double (x : Float)
  deriving DecidableEq

/-- The number that a double is. -/
def Quantity.ofFloat (x : Float) : Quantity :=
  match Binary64.form x with
  | .finite negative mantissa exponent =>
    let scale := Nat.pow 2 (-exponent).toNat
    if mantissa % scale = 0 then
      let n : Int := (mantissa * Nat.pow 2 exponent.toNat / scale : Nat)
      .whole (if negative then -n else n)
    else .double x
  | _ => .double x

/-- The number that a value counts as. -/
def quantity? : Json → Option Quantity
  | .bool b => some (.whole (if b then 1 else 0))
  | .int n => some (.whole n)
  | .float x => some (.ofFloat x)
  | _ => none

mutual

/-- Whether two values are the same. -/
def same : Json → Json → Bool
  | .null, .null => true
  | .str s, .str t => s == t
  | .arr xs, .arr ys => sameItems xs ys
  | .obj xs, .obj ys => xs.length == ys.length && sameFields xs ys
  | x, y => match x.quantity?, y.quantity? with
    | some m, some n => m == n
    | _, _ => false

/-- Whether two lists hold the same values in the same order. -/
def sameItems : List Json → List Json → Bool
  | [], [] => true
  | x :: xs, y :: ys => same x y && sameItems xs ys
  | _, _ => false

/-- Whether each of some fields has the same value among other fields. -/
def sameFields : List (String × Json) → List (String × Json) → Bool
  | [], _ => true
  | (name, x) :: xs, ys =>
    (match Keyed.get? name ys with
      | some y => same x y
      | none => false) && sameFields xs ys

end

end Lox.Json
