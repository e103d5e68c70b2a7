import Lox.Decimal.Layout
import Lox.Json.Escape
import Lox.Json.Limit
/-!
# JSON text

Two ways to set out a JSON value: on one line, and with each item on a line of its own, indented by
two more spaces than what holds it. Doubles are written with the fewest digits that read back, and
the three values that JSON has no number for are written as names. A whole number of too many
digits ends the writing where it stands.
-/

namespace Lox.Json

/-- Positional from `1e-4` up to below `1e16`, otherwise with a signed exponent of two digits or
more; whole numbers keep `.0`. -/
def numberLayout : Decimal.Layout where
  positional e := decide (-4 ≤ e) && decide (e < 16)
  keepsPointZero := true
  plusSign := true
  exponentWidth := 2
  nan := "NaN"
  infinity := "Infinity"

/-- The digits of a whole number. -/
def intDigits (n : Int) : List Char :=
  if n < 0 then '-' :: Nat.toDigits 10 n.natAbs else Nat.toDigits 10 n.natAbs

/-- What separates the parts of an array or object at a depth of nesting. -/
structure Spacing where
  /-- After an opening bracket, and with the comma between items, at the depth inside. -/
  before : Nat → List Char
  /-- Before a closing bracket, at the depth outside. -/
  after : Nat → List Char
  comma : List Char

/-- Everything on one line, with a space after each comma. -/
def oneLine : Spacing where
  before _ := []
  after _ := []
  comma := [',', ' ']

/-- A line for each item, indented by two spaces for each level. -/
def indented : Spacing where
  before depth := '\n' :: List.replicate (2 * depth) ' '
  after depth := '\n' :: List.replicate (2 * depth) ' '
  comma := [',']

/-- What writing comes to: the text as far as it goes, and the flaw that ended it, if one did. -/
structure Written where
  text : List Char := []
  flaw : Option Flaw := none

namespace Written

/-- Text before what is written after it. -/
def put (text : List Char) (after : Written) : Written :=
  { after with text := text ++ after.text }

@[simp] theorem put_text (text : List Char) (after : Written) :
    (put text after).text = text ++ after.text := rfl

@[simp] theorem put_flaw (text : List Char) (after : Written) :
    (put text after).flaw = after.flaw := rfl

@[simp] theorem put_put (first second : List Char) (after : Written) :
    put first (put second after) = put (first ++ second) after := by
  simp [put]

/-- The whole text, unless a flaw ended it. -/
def whole (w : Written) : Except Flaw String :=
  match w.flaw with
  | none => .ok (String.ofList w.text)
  | some flaw => .error flaw

end Written

open Written (put)

mutual

/-- Writes a value at a depth of nesting, before what is written after it. -/
def write (spacing : Spacing) (depth : Nat) : Json → Written → Written
  | .null, after => put "null".toList after
  | .bool true, after => put "true".toList after
  | .bool false, after => put "false".toList after
  | .int n, after =>
    if intFits n then put (intDigits n) after else { flaw := some .tooManyDigits }
  | .float x, after => put (numberLayout.write x).toList after
  | .str s, after => put (quote s.toList) after
  | .arr [], after => put ['[', ']'] after
  | .arr (item :: items), after =>
    put ('[' :: spacing.before (depth + 1)) <| write spacing (depth + 1) item <|
      writeItems spacing (depth + 1) items <| put (spacing.after depth ++ [']']) after
  | .obj [], after => put ['\x7b', '\x7d'] after
  | .obj (field :: fields), after =>
    put ('\x7b' :: spacing.before (depth + 1)) <| writeField spacing (depth + 1) field <|
      writeFields spacing (depth + 1) fields <| put (spacing.after depth ++ ['\x7d']) after

/-- Writes the items of an array after the first, each after a comma. -/
def writeItems (spacing : Spacing) (depth : Nat) : List Json → Written → Written
  | [], after => after
  | item :: items, after =>
    put (spacing.comma ++ spacing.before depth) <| write spacing depth item <|
      writeItems spacing depth items after

/-- Writes a field of an object. -/
def writeField (spacing : Spacing) (depth : Nat) : String × Json → Written → Written
  | (name, value), after =>
    put (quote name.toList ++ [':', ' ']) <| write spacing depth value after

/-- Writes the fields of an object after the first, each after a comma. -/
def writeFields (spacing : Spacing) (depth : Nat) : List (String × Json) → Written → Written
  | [], after => after
  | field :: fields, after =>
    put (spacing.comma ++ spacing.before depth) <| writeField spacing depth field <|
      writeFields spacing depth fields after

end

/-- Writes a value over lines. What a flaw leaves of it is what was written before. -/
def writeLines (value : Json) : Written :=
  write indented 0 value {}

/-- The text of a value on one line. -/
def compact (value : Json) : Except Flaw String :=
  (write oneLine 0 value {}).whole

/-- The text of a value with a line for each item. -/
def pretty (value : Json) : Except Flaw String :=
  value.writeLines.whole

end Lox.Json
