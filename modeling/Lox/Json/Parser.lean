import Lox.Decimal.Numeral
import Lox.Json.Limit
/-!
# Reading JSON text

Every reader takes the characters that are left and returns what it read with the characters after
it. Nesting is bounded by the length of the text, since each level opens with a bracket. Beyond
the standard, `NaN`, `Infinity` and `-Infinity` are numbers. A number with neither fraction nor
exponent is a whole number, and one of too many digits is refused where it stands.
-/

namespace Lox.Json

/-- What was read, or else the flaw that nothing could be. -/
def orMalformed {α : Type} : Option α → Except Flaw α
  | some a => .ok a
  | none => .error .malformed

/-- The white space of JSON. -/
def isBlank (c : Char) : Bool :=
  c == ' ' || c == '\t' || c == '\n' || c == '\r'

/-- What is left after white space. -/
def skipBlanks (text : List Char) : List Char :=
  text.dropWhile isBlank

/-- The value of a hexadecimal digit. -/
def hexValue? (c : Char) : Option Nat :=
  if c.isDigit then some (c.toNat - '0'.toNat)
  else if 'a' ≤ c ∧ c ≤ 'f' then some (c.toNat - 'a'.toNat + 10)
  else if 'A' ≤ c ∧ c ≤ 'F' then some (c.toNat - 'A'.toNat + 10)
  else none

/-- The value of four hexadecimal digits. -/
def unitValue? (a b c d : Char) : Option Nat := do
  return (((← hexValue? a) * 16 + (← hexValue? b)) * 16 + (← hexValue? c)) * 16 + (← hexValue? d)

/-- The character that a short escape stands for. -/
def unescape? : Char → Option Char
  | '"' => some '"'
  | '\\' => some '\\'
  | '/' => some '/'
  | 'b' => some '\x08'
  | 'f' => some '\x0c'
  | 'n' => some '\n'
  | 'r' => some '\r'
  | 't' => some '\t'
  | _ => none

/-- The character that a pair of surrogate units stands for. -/
def pairValue? (high low : Nat) : Option Char :=
  if 0xD800 ≤ high ∧ high < 0xDC00 ∧ 0xDC00 ≤ low ∧ low < 0xE000 then
    some (Char.ofNat (0x10000 + (high - 0xD800) * 0x400 + (low - 0xDC00)))
  else none

/-- The character of a single unit; a surrogate that stands alone becomes a replacement
character. -/
def unitChar (n : Nat) : Char :=
  if 0xD800 ≤ n ∧ n < 0xE000 then '\uFFFD' else Char.ofNat n

/-- The rest of a string after its opening quote, up to the closing one. -/
def readString? : List Char → Option (List Char × List Char)
  | [] => none
  | '"' :: rest => some ([], rest)
  | '\\' :: 'u' :: a :: b :: c :: d :: '\\' :: 'u' :: e :: f :: g :: h :: rest => do
    let high ← unitValue? a b c d
    match (unitValue? e f g h).bind (pairValue? high) with
    | some pair =>
      let (text, after) ← readString? rest
      return (pair :: text, after)
    | none =>
      let (text, after) ← readString? ('\\' :: 'u' :: e :: f :: g :: h :: rest)
      return (unitChar high :: text, after)
  | '\\' :: 'u' :: a :: b :: c :: d :: rest => do
    let unit ← unitValue? a b c d
    let (text, after) ← readString? rest
    return (unitChar unit :: text, after)
  | '\\' :: c :: rest => do
    let char ← unescape? c
    let (text, after) ← readString? rest
    return (char :: text, after)
  | c :: rest =>
    if c.toNat < 0x20 ∨ c = '\\' then none
    else do
      let (text, after) ← readString? rest
      return (c :: text, after)

/-- The digits of the whole part: a zero alone, or digits that start with another one. -/
def readWhole? : List Char → Option (List Char × List Char)
  | '0' :: rest => some (['0'], rest)
  | text =>
    let (digits, rest) := text.span Char.isDigit
    if digits = [] then none else some (digits, rest)

/-- The digits after a point, if a point with a digit follows. -/
def readFraction : List Char → List Char × List Char
  | '.' :: rest =>
    let (digits, after) := rest.span Char.isDigit
    if digits = [] then ([], '.' :: rest) else (digits, after)
  | text => ([], text)

/-- The exponent, if an exponent mark with a number follows. -/
def readExponent (text : List Char) : Option Int × List Char :=
  match text with
  | c :: rest =>
    if c = 'e' ∨ c = 'E' then
      let (negative, unsigned) := Decimal.splitSign rest
      let (digits, after) := unsigned.span Char.isDigit
      match Decimal.readDigits? digits with
      | some n => (some (if negative then -n else n), after)
      | none => (none, text)
    else (none, text)
  | [] => (none, text)

/-- A number. -/
def readNumber (text : List Char) : Except Flaw (Json × List Char) := do
  let (negative, unsigned) := match text with
    | '-' :: rest => (true, rest)
    | _ => (false, text)
  let (whole, rest) ← orMalformed (readWhole? unsigned)
  let (fraction, rest) := readFraction rest
  let (scale, rest) := readExponent rest
  if fraction = [] ∧ scale = none then
    if Decimal.maxDigits < whole.length then throw .tooManyDigits
    let n : Int := Decimal.valueOfDigits whole
    return (.int (if negative then -n else n), rest)
  else
    let x := (Decimal.ofDigits whole fraction (scale.getD 0)).toFloat
    return (.float (if negative then -x else x), rest)

mutual

/-- A value, at its first character. -/
def readValue : Nat → List Char → Except Flaw (Json × List Char)
  | 0, _ => .error .malformed
  | bound + 1, text =>
    match text with
    | '"' :: rest =>
      (orMalformed (readString? rest)).map fun (s, after) => (.str (String.ofList s), after)
    | '\x7b' :: rest =>
      match skipBlanks rest with
      | '\x7d' :: after => .ok (.obj [], after)
      | inside => (readFields bound inside).map fun (fields, after) => (ofFields fields, after)
    | '[' :: rest =>
      match skipBlanks rest with
      | ']' :: after => .ok (.arr [], after)
      | inside => (readItems bound inside).map fun (items, after) => (.arr items, after)
    | 'n' :: 'u' :: 'l' :: 'l' :: rest => .ok (.null, rest)
    | 't' :: 'r' :: 'u' :: 'e' :: rest => .ok (.bool true, rest)
    | 'f' :: 'a' :: 'l' :: 's' :: 'e' :: rest => .ok (.bool false, rest)
    | 'N' :: 'a' :: 'N' :: rest => .ok (.float (0.0 / 0.0), rest)
    | 'I' :: 'n' :: 'f' :: 'i' :: 'n' :: 'i' :: 't' :: 'y' :: rest =>
      .ok (.float Binary64.infinity, rest)
    | '-' :: 'I' :: 'n' :: 'f' :: 'i' :: 'n' :: 'i' :: 't' :: 'y' :: rest =>
      .ok (.float (-Binary64.infinity), rest)
    | _ => readNumber text

/-- The items of an array, at the first character of an item. -/
def readItems : Nat → List Char → Except Flaw (List Json × List Char)
  | 0, _ => .error .malformed
  | bound + 1, text => do
    let (item, rest) ← readValue bound text
    match skipBlanks rest with
    | ']' :: after => return ([item], after)
    | ',' :: more =>
      let (items, after) ← readItems bound (skipBlanks more)
      return (item :: items, after)
    | _ => throw .malformed

/-- The fields of an object, at the first character of a name. -/
def readFields : Nat → List Char → Except Flaw (List (String × Json) × List Char)
  | 0, _ => .error .malformed
  | bound + 1, text => do
    match text with
    | '"' :: quoted =>
      let (name, rest) ← orMalformed (readString? quoted)
      match skipBlanks rest with
      | ':' :: rest =>
        let (value, rest) ← readValue bound (skipBlanks rest)
        let field := (String.ofList name, value)
        match skipBlanks rest with
        | '\x7d' :: after => return ([field], after)
        | ',' :: more =>
          let (fields, after) ← readFields bound (skipBlanks more)
          return (field :: fields, after)
        | _ => throw .malformed
      | _ => throw .malformed
    | _ => throw .malformed

end

/-- The value of a text that is one JSON value with white space around it. -/
def parse (text : String) : Except Flaw Json := do
  let chars := text.toList
  let (value, rest) ← readValue (chars.length + 1) (skipBlanks chars)
  if skipBlanks rest = [] then return value else throw .malformed

end Lox.Json
