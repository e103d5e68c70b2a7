import Lox.Token
import Lox.Unicode.Word
/-!
# Pieces of source text

A source is cut into pieces from left to right, each decided by the characters at its start and
taken as long as it can be: tokens, gaps between them, characters that begin nothing, and a string
that is never closed. Nothing is lost or duplicated: `flatMap_text_cut` puts the pieces of a source
together again.
-/

namespace Lox.Source

/-- A piece of source text. -/
inductive Piece where
  /-- A single blank or line feed, or a comment. -/
  | gap (text : List Char)
  | token (kind : Kind) (text : List Char)
  /-- A character that begins no other piece. -/
  | stray (c : Char)
  /-- A quote and all that follows it, when no second quote does. -/
  | unterminated (text : List Char)

namespace Piece

/-- The characters of a piece. -/
def text : Piece → List Char
  | gap text => text
  | token _ text => text
  | stray c => [c]
  | unterminated text => text

/-- The signs that are tokens whatever follows them. -/
def single? : Char → Option Kind
  | '(' => some .leftParen
  | ')' => some .rightParen
  | '\x7b' => some .leftBrace
  | '\x7d' => some .rightBrace
  | ',' => some .comma
  | '.' => some .dot
  | '-' => some .minus
  | '+' => some .plus
  | ';' => some .semicolon
  | '*' => some .star
  | _ => none

/-- The signs that an equals sign extends: the kind alone and the kind extended. -/
def extensible? : Char → Option (Kind × Kind)
  | '!' => some (.bang, .bangEqual)
  | '=' => some (.equal, .equalEqual)
  | '<' => some (.less, .lessEqual)
  | '>' => some (.greater, .greaterEqual)
  | _ => none

/-- The characters between tokens, the line feed among them. -/
def isBlank (c : Char) : Bool :=
  c == ' ' || c == '\r' || c == '\t' || c == '\n'

/-- A sign that an equals sign extends, at the start of a text. -/
def readSign (c : Char) (alone extended : Kind) : List Char → Piece × List Char
  | '=' :: rest => (token extended [c, '='], rest)
  | rest => (token alone [c], rest)

/-- A slash, or a comment up to the end of its line. -/
def readSlash : List Char → Piece × List Char
  | '/' :: rest => (gap ('/' :: '/' :: rest.takeWhile (· != '\n')), rest.dropWhile (· != '\n'))
  | rest => (token .slash ['/'], rest)

/-- A string, after its opening quote. -/
def readString (rest : List Char) : Piece × List Char :=
  let body := rest.takeWhile (· != '"')
  match rest.dropWhile (· != '"') with
  | [] => (unterminated ('"' :: body), [])
  | quote :: rest => (token .string ('"' :: body ++ [quote]), rest)

/-- The characters of a fraction and what follows: a point counts only with a digit after it. -/
def splitFraction : List Char → List Char × List Char
  | '.' :: d :: rest =>
    if d.isDigit then ('.' :: d :: rest.takeWhile Char.isDigit, rest.dropWhile Char.isDigit)
    else ([], '.' :: d :: rest)
  | rest => ([], rest)

/-- A number, after its first digit. -/
def readNumber (c : Char) (rest : List Char) : Piece × List Char :=
  let (fraction, after) := splitFraction (rest.dropWhile Char.isDigit)
  (token .number (c :: rest.takeWhile Char.isDigit ++ fraction), after)

/-- A keyword or an identifier, after its first letter. -/
def readWord (c : Char) (rest : List Char) : Piece × List Char :=
  let word := c :: rest.takeWhile Unicode.isWordChar
  (token (Kind.ofWord (String.ofList word)) word, rest.dropWhile Unicode.isWordChar)

/-- The piece that starts with a character, and what follows it. -/
def read (c : Char) (rest : List Char) : Piece × List Char :=
  match single? c with
  | some kind => (token kind [c], rest)
  | none =>
    match extensible? c with
    | some (alone, extended) => readSign c alone extended rest
    | none =>
      if c = '/' then readSlash rest
      else if isBlank c then (gap [c], rest)
      else if c = '"' then readString rest
      else if c.isDigit then readNumber c rest
      else if Unicode.isLetter c then readWord c rest
      else (stray c, rest)

/-- The characters of a sign come back. -/
theorem readSign_append (c : Char) (alone extended : Kind) (rest : List Char) :
    (readSign c alone extended rest).1.text ++ (readSign c alone extended rest).2 = c :: rest := by
  unfold readSign
  split <;> simp [text]

/-- The characters of a slash or comment come back. -/
theorem readSlash_append (rest : List Char) :
    (readSlash rest).1.text ++ (readSlash rest).2 = '/' :: rest := by
  unfold readSlash
  split <;> simp [text]

/-- The characters of a string come back. -/
theorem readString_append (rest : List Char) :
    (readString rest).1.text ++ (readString rest).2 = '"' :: rest := by
  have h := List.takeWhile_append_dropWhile (p := (· != '"')) (l := rest)
  simp only [readString]
  split
  · rename_i hd
    rw [hd] at h
    simpa [text] using h
  · rename_i quote after hd
    rw [hd] at h
    simpa [text] using h

/-- The characters of a fraction come back. -/
theorem splitFraction_append (rest : List Char) :
    (splitFraction rest).1 ++ (splitFraction rest).2 = rest := by
  unfold splitFraction
  split
  · split <;> simp
  · simp

/-- The characters of a number come back. -/
theorem readNumber_append (c : Char) (rest : List Char) :
    (readNumber c rest).1.text ++ (readNumber c rest).2 = c :: rest := by
  simp only [readNumber, text, List.cons_append, List.append_assoc, splitFraction_append,
    List.takeWhile_append_dropWhile]

/-- **Reading a piece loses nothing**: its characters and those after it are those it was read
from. -/
theorem read_append (c : Char) (rest : List Char) :
    (read c rest).1.text ++ (read c rest).2 = c :: rest := by
  unfold read
  split
  · simp [text]
  · split
    · exact readSign_append ..
    · split
      · subst c; exact readSlash_append rest
      · split
        · simp [text]
        · split
          · subst c; exact readString_append rest
          · split
            · exact readNumber_append c rest
            · split
              · simp [readWord, text]
              · simp [text]

/-- Every piece has a first character. -/
theorem text_read_ne_nil (c : Char) (rest : List Char) : (read c rest).1.text ≠ [] := by
  unfold read
  split
  · simp [text]
  · split
    · unfold readSign; split <;> simp [text]
    · split
      · unfold readSlash; split <;> simp [text]
      · split
        · simp [text]
        · split
          · simp only [readString]; split <;> simp [text]
          · split
            · simp [readNumber, text]
            · split <;> simp [readWord, text]

/-- What follows a piece is shorter than what it was read from. -/
theorem length_read_le (c : Char) (rest : List Char) : (read c rest).2.length ≤ rest.length := by
  have h := congrArg List.length (read_append c rest)
  have := List.length_pos_iff.2 (text_read_ne_nil c rest)
  simp only [List.length_append, List.length_cons] at h
  omega

end Piece

/-- The pieces of a source, in order. -/
def cut : List Char → List Piece
  | [] => []
  | c :: rest => (Piece.read c rest).1 :: cut (Piece.read c rest).2
termination_by text => text.length
decreasing_by exact Nat.lt_succ_of_le (Piece.length_read_le c rest)

/-- **The pieces of a source make it up**, each character once. -/
theorem flatMap_text_cut (text : List Char) : (cut text).flatMap Piece.text = text := by
  fun_induction cut text with
  | case1 => rfl
  | case2 c rest ih => simp [ih, Piece.read_append]

end Lox.Source
