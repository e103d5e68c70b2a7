import Lox.Decimal.Basic
import Lox.Unicode.Numeric
import Lox.Unicode.Space
/-!
# Numerals given as text

Numbers that come as text rather than from a program. Blanks around a numeral are dropped, digits
of any script count as the ASCII digits of the same value, single underscores may stand between
digits, and the names of infinity and of what is not a number are read in any case.
-/

namespace Lox.Decimal

/-- The blanks that may surround a numeral. -/
def isBlank (c : Char) : Bool :=
  c == ' ' || (decide (0x9 ≤ c.toNat) && decide (c.toNat ≤ 0xD))

/-- A character of a numeral in ASCII: digits of other scripts become ASCII digits and blanks of
other scripts become spaces. -/
def toAscii? (c : Char) : Option Char :=
  if c.toNat < 0x7F then some c
  else if Unicode.isSpace c then some ' '
  else (Unicode.decimalDigitValue? c).map Nat.digitChar

/-- The text of a numeral in ASCII, without the blanks around it. -/
def normalizeNumeral? (text : List Char) : Option (List Char) := do
  let ascii ← text.mapM toAscii?
  return ((ascii.dropWhile isBlank).reverse.dropWhile isBlank).reverse

/-- A numeral without its underscores, each of which must stand between two digits. -/
def dropUnderscores? : List Char → Option (List Char)
  | [] => some []
  | c :: '_' :: d :: rest =>
    if c.isDigit && d.isDigit then (dropUnderscores? (d :: rest)).map (c :: ·) else none
  | '_' :: _ => none
  | [_, '_'] => none
  | c :: rest => (dropUnderscores? rest).map (c :: ·)

/-- Whether a numeral starts with a minus, and what follows its sign. -/
def splitSign : List Char → Bool × List Char
  | '-' :: rest => (true, rest)
  | '+' :: rest => (false, rest)
  | text => (false, text)

/-- The value of one digit or more. -/
def readDigits? (text : List Char) : Option Nat :=
  if text ≠ [] ∧ text.all Char.isDigit then some (valueOfDigits text) else none

/-- The number written by a sign and one digit or more. -/
def readSigned? (text : List Char) : Option Int :=
  let (negative, digits) := splitSign text
  (readDigits? digits).map fun n => if negative then -n else n

/-- The scale at the end of a numeral: nothing, or an exponent mark and a signed number. -/
def readScale? : List Char → Option Int
  | [] => some 0
  | c :: rest => if c = 'e' ∨ c = 'E' then readSigned? rest else none

/-- The number written by digits, perhaps a point, and perhaps an exponent. -/
def readDecimal? (text : List Char) : Option Decimal :=
  let (whole, rest) := text.span Char.isDigit
  let (fraction, rest) := match rest with
    | '.' :: rest => rest.span Char.isDigit
    | rest => ([], rest)
  if whole = [] ∧ fraction = [] then none
  else (readScale? rest).map (ofDigits whole fraction)

/-- The double named or written by a numeral without sign. -/
def readMagnitude? (text : List Char) : Option Float :=
  let word := String.ofList (text.map Char.toLower)
  if word = "inf" ∨ word = "infinity" then some Binary64.infinity
  else if word = "nan" then some (0.0 / 0.0)
  else (readDecimal? text).map toFloat

/-- The double written by a text, if it is a numeral. -/
def readFloat? (text : String) : Option Float := do
  let body ← normalizeNumeral? text.toList
  let body ← dropUnderscores? body
  let (negative, magnitude) := splitSign body
  let x ← readMagnitude? magnitude
  return if negative then -x else x

/-- The whole number written by a text, if it is one and has not too many digits. -/
def readInt? (text : String) : Option Int := do
  let body ← dropUnderscores? (← normalizeNumeral? text.toList)
  if maxDigits < (splitSign body).2.length then none else readSigned? body

end Lox.Decimal
