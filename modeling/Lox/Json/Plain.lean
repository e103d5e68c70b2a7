import Lox.Json.Printer
/-!
# Plain text of JSON values

How a JSON value reads when it is put into a message or made into a string: a string stands for
itself, and any other value is shown with `None`, `True` and `False` for the three constants and
with quoted strings inside. As in JSON text, a whole number of too many digits is no text; a value
that was read from a text holds none.
-/

namespace Lox.Json

/-- Doubles in plain text: as in JSON text, but for the names of the special values. -/
def plainNumberLayout : Decimal.Layout :=
  { numberLayout with nan := "nan", infinity := "inf" }

mutual

/-- A value as it is shown inside another one. -/
def shown : Json → String
  | .null => "None"
  | .bool true => "True"
  | .bool false => "False"
  | .int n => String.ofList (intDigits n)
  | .float x => plainNumberLayout.write x
  | .str s => Text.quoted s
  | .arr items => "[" ++ ", ".intercalate (shownItems items) ++ "]"
  | .obj fields => "\x7b" ++ ", ".intercalate (shownFields fields) ++ "\x7d"

/-- The items of an array, shown. -/
def shownItems : List Json → List String
  | [] => []
  | item :: items => shown item :: shownItems items

/-- The fields of an object, shown. -/
def shownFields : List (String × Json) → List String
  | [] => []
  | (name, value) :: fields => (Text.quoted name ++ ": " ++ shown value) :: shownFields fields

end

/-- A value as text, all of whose whole numbers are written out: a string is its own text. -/
def spelled : Json → String
  | .str s => s
  | value => value.shown

/-- A value as text, unless it holds a whole number of too many digits. -/
def plain (value : Json) : Except Flaw String :=
  if value.fits then .ok value.spelled else .error .tooManyDigits

end Lox.Json
