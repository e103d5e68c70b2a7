import Lox.Unicode.Printable
/-!
# Quoted text

Text quoted for a message. The quote is single unless the text holds a single quote and no double
one. A backslash, the chosen quote, line feed, carriage return and tab are escaped with a
backslash; other characters that are not printable are written in hexadecimal, with two, four or
eight digits. Printable characters stand for themselves, so a quoted text never breaks a line.
-/

namespace Lox.Text

/-- Hexadecimal digits, filled with zeros up to a width. -/
def hex (width n : Nat) : List Char :=
  let digits := Nat.toDigits 16 n
  List.replicate (width - digits.length) '0' ++ digits

/-- A character that does not show as itself, as an escape. -/
def escapeUnprintable (c : Char) : List Char :=
  if c.toNat < 0x100 then '\\' :: 'x' :: hex 2 c.toNat
  else if c.toNat < 0x10000 then '\\' :: 'u' :: hex 4 c.toNat
  else '\\' :: 'U' :: hex 8 c.toNat

/-- A character as it is written between two marks. -/
def escapeBetween (mark c : Char) : List Char :=
  if c = mark ∨ c = '\\' then ['\\', c]
  else if c = '\n' then ['\\', 'n']
  else if c = '\r' then ['\\', 'r']
  else if c = '\t' then ['\\', 't']
  else if Unicode.isPrintable c then [c]
  else escapeUnprintable c

/-- The mark that encloses a text. -/
def markFor (text : List Char) : Char :=
  if text.contains '\'' && !text.contains '"' then '"' else '\''

/-- A text between marks, with escapes. -/
def quote (text : List Char) : List Char :=
  let mark := markFor text
  mark :: text.flatMap (escapeBetween mark) ++ [mark]

/-- A text quoted for a message. -/
def quoted (text : String) : String :=
  String.ofList (quote text.toList)

end Lox.Text
