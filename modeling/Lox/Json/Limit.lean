import Lox.Decimal.Basic
import Lox.Json.Basic
/-!
# Whole numbers in text

Whole numbers are exact in a value, but text holds no more than `Decimal.maxDigits` digits of one.
A number of more digits is neither read from a text nor written to one, and `Json.fits` says that a
value holds none.
-/

namespace Lox.Json

/-- Why a text is not read, or a value not written. -/
inductive Flaw where
  | malformed
  /-- A whole number has too many digits. -/
  | tooManyDigits
  deriving DecidableEq, Repr

/-- Whether a whole number has few enough digits for text. A sign is no digit. -/
def intFits (n : Int) : Bool :=
  decide ((Nat.toDigits 10 n.natAbs).length ≤ Decimal.maxDigits)

mutual

/-- Whether every whole number of a value has few enough digits for text. -/
def fits : Json → Bool
  | .int n => intFits n
  | .arr items => fitsItems items
  | .obj fields => fitsFields fields
  | _ => true

/-- Whether those of some items do. -/
def fitsItems : List Json → Bool
  | [] => true
  | item :: items => item.fits && fitsItems items

/-- Whether those of some fields do. -/
def fitsFields : List (String × Json) → Bool
  | [] => true
  | (_, value) :: fields => value.fits && fitsFields fields

end

end Lox.Json
