import Lox.Text.Quoted
/-!
# JSON strings as text

Only what must be escaped is: the quote, the backslash and the characters below U+0020, five of
which have short escapes.
-/

namespace Lox.Json

/-- A character as it is written inside a JSON string. -/
def escape (c : Char) : List Char :=
  if c = '"' ∨ c = '\\' then ['\\', c]
  else if c = '\n' then ['\\', 'n']
  else if c = '\r' then ['\\', 'r']
  else if c = '\t' then ['\\', 't']
  else if c = '\x08' then ['\\', 'b']
  else if c = '\x0c' then ['\\', 'f']
  else if c.toNat < 0x20 then '\\' :: 'u' :: Text.hex 4 c.toNat
  else [c]

/-- A JSON string with its quotes. -/
def quote (text : List Char) : List Char :=
  '"' :: text.flatMap escape ++ ['"']

/-- A text as a JSON string. -/
def quoted (text : String) : String :=
  String.ofList (quote text.toList)

end Lox.Json
