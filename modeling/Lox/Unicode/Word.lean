import Lox.Unicode.Letter
import Lox.Unicode.Numeric
/-!
# Word characters

A word character is a letter, a numeral of any kind, or the underscore.
-/

namespace Lox.Unicode

/-- Whether a character is a letter or a numeral. -/
def isAlphanumeric (c : Char) : Bool :=
  isLetter c || isDecimalDigit c || isOtherNumeral c

/-- Whether a character may stand inside a word. -/
def isWordChar (c : Char) : Bool :=
  isAlphanumeric c || c == '_'

/-- A letter is a word character. -/
theorem isWordChar_of_isLetter {c : Char} (h : isLetter c = true) : isWordChar c = true := by
  simp [isWordChar, isAlphanumeric, h]

end Lox.Unicode
