import Lox.Unicode.Ranges
/-!
# White space

The characters that are blank in Unicode text: category Zs, and the bidirectional classes WS, B
and S. The information separators U+001C to U+001F are among them.
-/

namespace Lox.Unicode

/-- The intervals of white space. -/
def spaces : Ranges :=
  [(0x9, 0xD), (0x1C, 0x20), (0x85, 0x85), (0xA0, 0xA0), (0x1680, 0x1680), (0x2000, 0x200A),
   (0x2028, 0x2029), (0x202F, 0x202F), (0x205F, 0x205F), (0x3000, 0x3000)]

/-- Whether a character is white space. -/
def isSpace (c : Char) : Bool :=
  spaces.contains c.toNat

/-- A line without the white space at its end. -/
def trimRight (text : List Char) : List Char :=
  (text.reverse.dropWhile isSpace).reverse

/-- A line without the white space at either end. -/
def trim (text : List Char) : List Char :=
  trimRight (text.dropWhile isSpace)

end Lox.Unicode
