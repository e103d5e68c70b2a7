import Lox.Json.Printer
/-!
# Atoms

The four kinds of values that a program computes with. An atom has two written forms: the debug
form, which names the kind and determines the atom, and the display form, which concatenation
uses. Equality of the language compares atoms of one kind only, and numbers as IEEE 754 does.
-/

namespace Lox

/-- A value of the language. -/
inductive Atom where
  | string (value : String)
  | number (value : Float)
  | bool (value : Bool)
  | nil
  deriving DecidableEq, Inhabited

namespace Atom

/-- Numbers as they are displayed: every digit in place, and no `.0` after a whole number. -/
def displayLayout : Decimal.Layout where
  positional _ := true
  keepsPointZero := false
  plusSign := false
  exponentWidth := 1
  nan := "NaN"
  infinity := "inf"

/-- Numbers in the debug form: very large and very small ones have an exponent, written without
plus sign and leading zeros. -/
def debugLayout : Decimal.Layout where
  positional e := decide (-4 ≤ e) && decide (e < 16)
  keepsPointZero := true
  plusSign := false
  exponentWidth := 1
  nan := "NaN"
  infinity := "inf"

/-- The name of an atom's kind. -/
def typeName : Atom → String
  | string _ => "String"
  | number _ => "Number"
  | bool _ => "Bool"
  | nil => "Nil"

/-- The display form. -/
def display : Atom → String
  | string value => value
  | number value => displayLayout.write value
  | bool true => "true"
  | bool false => "false"
  | nil => "nil"

/-- The debug form. -/
def debug : Atom → String
  | string value => "String(" ++ Json.quoted value ++ ")"
  | number value => "Number(" ++ debugLayout.write value ++ ")"
  | bool true => "Bool(true)"
  | bool false => "Bool(false)"
  | nil => "Nil"

/-- Every atom but nil and false counts as true. -/
def truthy : Atom → Bool
  | bool value => value
  | nil => false
  | string _ | number _ => true

/-- Equality of the language: same kind and same payload. -/
def equal : Atom → Atom → Bool
  | string a, string b => a == b
  | number a, number b => a == b
  | bool a, bool b => a == b
  | nil, nil => true
  | _, _ => false

/-- The numbers that two operands of an arithmetic operator stand for. A truth value counts as one
or zero beside a number; two truth values are not numeric. -/
def numericPair? : Atom → Atom → Option (Float × Float)
  | number a, number b => some (a, b)
  | number a, bool b => some (a, if b then 1 else 0)
  | bool a, number b => some (if a then 1 else 0, b)
  | _, _ => none

end Atom

end Lox
