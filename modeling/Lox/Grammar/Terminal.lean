import Lox.Token
import Lox.Unicode.Word
/-!
# Terminals of the grammar

The grammar's own lexical rules, each given by how many characters it takes at the start of a text.
Which terminals are tried depends on what the parser can accept, so the same sign may be read
differently at different places. A name starts with a word character that is neither a decimal
digit nor an underscore, and is no keyword as a whole.
-/

namespace Lox.Grammar

/-- A terminal of the grammar. -/
inductive Terminal where
  | identifier
  | number
  | string
  | kwFalse
  | kwPrint
  | kwTrue
  | kwNil
  | kwVar
  | comparisonOp
  | equalityOp
  | factorOp
  | termOp
  | unaryOp
  | equal
  | semicolon
  | leftParen
  | rightParen
  deriving DecidableEq, Repr

/-- How many characters a fixed text takes. -/
def matchText (word : String) (text : List Char) : Nat :=
  if word.toList.isPrefixOf text then word.toList.length else 0

/-- How many characters the first of some fixed texts takes that is there. -/
def matchFirst (words : List String) (text : List Char) : Nat :=
  ((words.map (matchText · text)).find? (· != 0)).getD 0

/-- How many characters a number takes: digits, and a point with digits after it. -/
def matchNumber (text : List Char) : Nat :=
  let whole := (text.takeWhile Char.isDigit).length
  if whole = 0 then 0
  else match text.drop whole with
    | '.' :: rest =>
      let fraction := (rest.takeWhile Char.isDigit).length
      if fraction = 0 then whole else whole + 1 + fraction
    | _ => whole

/-- How many characters a string with its two quotes takes. -/
def matchString : List Char → Nat
  | '"' :: rest =>
    let body := (rest.takeWhile (· != '"')).length
    if body < rest.length then body + 2 else 0
  | _ => 0

/-- Whether a character may start a name. -/
def startsName (c : Char) : Bool :=
  Unicode.isWordChar c && !Unicode.isDecimalDigit c && c != '_'

/-- How many characters a name takes. -/
def matchName : List Char → Nat
  | [] => 0
  | c :: rest =>
    let word := c :: rest.takeWhile Unicode.isWordChar
    if startsName c && Kind.ofWord (String.ofList word) == .identifier then word.length else 0

namespace Terminal

/-- All terminals, in the order in which they are tried: names before the keywords, and signs of
two characters before those they begin with. -/
def all : List Terminal :=
  [identifier, number, string, kwFalse, kwPrint, kwTrue, kwNil, kwVar, comparisonOp, equalityOp,
   factorOp, termOp, unaryOp, equal, semicolon, leftParen, rightParen]

/-- How many characters a terminal takes at the start of a text; none if it is not there. -/
def matchLength : Terminal → List Char → Nat
  | identifier => matchName
  | number => matchNumber
  | string => matchString
  | kwFalse => matchText "false"
  | kwPrint => matchText "print"
  | kwTrue => matchText "true"
  | kwNil => matchText "nil"
  | kwVar => matchText "var"
  | comparisonOp => matchFirst [">=", "<=", ">", "<"]
  | equalityOp => matchFirst ["==", "!="]
  | factorOp => matchFirst ["*", "/"]
  | termOp => matchFirst ["+", "-"]
  | unaryOp => matchFirst ["!", "-"]
  | equal => matchText "="
  | semicolon => matchText ";"
  | leftParen => matchText "("
  | rightParen => matchText ")"

/-- The first of some terminals that a text starts with. -/
def first? (terminals : List Terminal) (text : List Char) : Option Terminal :=
  terminals.find? fun t => t.matchLength text != 0

end Terminal

/-- What is left of a text after white space and comments, which run to the end of their line, and
the line on which it starts. -/
def skipLayout (line : Int) : List Char → Int × List Char
  | [] => (line, [])
  | '/' :: '/' :: rest => skipLayout line (rest.dropWhile (· != '\n'))
  | c :: rest =>
    if c == '\n' then skipLayout (line + 1) rest
    else if c == ' ' || c == '\t' || c == '\r' then skipLayout line rest
    else (line, c :: rest)
termination_by text => text.length
decreasing_by
  · have := (List.dropWhile_suffix (p := (· != '\n')) (l := rest)).length_le
    simp only [List.length_cons]
    omega
  · exact Nat.lt_succ_self _
  · exact Nat.lt_succ_self _

/-- Skipping layout leaves a suffix. -/
theorem skipLayout_suffix (line : Int) (text : List Char) : (skipLayout line text).2 <:+ text := by
  fun_induction skipLayout line text with
  | case1 => exact List.suffix_refl _
  | case2 _ rest ih =>
    exact ih.trans ((List.dropWhile_suffix _).trans
      ((List.suffix_cons _ _).trans (List.suffix_cons _ _)))
  | case3 _ _ _ _ _ ih => exact ih.trans (List.suffix_cons _ _)
  | case4 _ _ _ _ _ _ ih => exact ih.trans (List.suffix_cons _ _)
  | case5 => exact List.suffix_refl _

/-- What is left of a text after layout, known to be no longer than the text, and its line. -/
def afterLayout (line : Int) (text : List Char) :
    Int × { rest : List Char // rest.length ≤ text.length } :=
  ((skipLayout line text).1, ⟨(skipLayout line text).2, (skipLayout_suffix line text).length_le⟩)

end Lox.Grammar
