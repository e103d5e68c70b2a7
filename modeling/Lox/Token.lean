import Lox.Json.Plain
/-!
# Tokens

The kinds of tokens, the words and signs that belong to them, and tokens with their place in the
source. A name determines its kind: `Kind.ofName?_name`.
-/

namespace Lox

/-- What kind of token a piece of source is. -/
inductive Kind where
  | leftParen
  | rightParen
  | leftBrace
  | rightBrace
  | comma
  | dot
  | minus
  | plus
  | semicolon
  | slash
  | star
  | bang
  | bangEqual
  | equal
  | equalEqual
  | greater
  | greaterEqual
  | less
  | lessEqual
  | identifier
  | string
  | number
  | kwAnd
  | kwClass
  | kwElse
  | kwFalse
  | kwFor
  | kwFun
  | kwIf
  | kwNil
  | kwOr
  | kwPrint
  | kwReturn
  | kwSuper
  | kwThis
  | kwTrue
  | kwVar
  | kwWhile
  | eof
  deriving DecidableEq, Repr, Inhabited

namespace Kind

/-- All kinds. -/
def all : List Kind :=
  [.leftParen, .rightParen, .leftBrace, .rightBrace, .comma, .dot, .minus, .plus, .semicolon,
   .slash, .star, .bang, .bangEqual, .equal, .equalEqual, .greater, .greaterEqual, .less,
   .lessEqual, .identifier, .string, .number, .kwAnd, .kwClass, .kwElse, .kwFalse, .kwFor,
   .kwFun, .kwIf, .kwNil, .kwOr, .kwPrint, .kwReturn, .kwSuper, .kwThis, .kwTrue, .kwVar,
   .kwWhile, .eof]

/-- The name of a kind in listings and documents. -/
def name : Kind → String
  | .leftParen => "LEFTPAREN"
  | .rightParen => "RIGHTPAREN"
  | .leftBrace => "LEFTBRACE"
  | .rightBrace => "RIGHTBRACE"
  | .comma => "COMMA"
  | .dot => "DOT"
  | .minus => "MINUS"
  | .plus => "PLUS"
  | .semicolon => "SEMICOLON"
  | .slash => "SLASH"
  | .star => "STAR"
  | .bang => "BANG"
  | .bangEqual => "BANGEQUAL"
  | .equal => "EQUAL"
  | .equalEqual => "EQUALEQUAL"
  | .greater => "GREATER"
  | .greaterEqual => "GREATEREQUAL"
  | .less => "LESS"
  | .lessEqual => "LESSEQUAL"
  | .identifier => "IDENTIFIER"
  | .string => "STRING"
  | .number => "NUMBER"
  | .kwAnd => "AND"
  | .kwClass => "CLASS"
  | .kwElse => "ELSE"
  | .kwFalse => "FALSE"
  | .kwFor => "FOR"
  | .kwFun => "FUN"
  | .kwIf => "IF"
  | .kwNil => "NIL"
  | .kwOr => "OR"
  | .kwPrint => "PRINT"
  | .kwReturn => "RETURN"
  | .kwSuper => "SUPER"
  | .kwThis => "THIS"
  | .kwTrue => "TRUE"
  | .kwVar => "VAR"
  | .kwWhile => "WHILE"
  | .eof => "EOF"

/-- The kind that has a name. -/
def ofName? (name : String) : Option Kind :=
  all.find? fun kind => kind.name = name

/-- A kind is found by its name. -/
theorem ofName?_name (kind : Kind) : ofName? kind.name = some kind := by
  cases kind <;> decide

/-- The words that are not names. -/
def keywords : List (String × Kind) :=
  [("and", .kwAnd), ("class", .kwClass), ("else", .kwElse), ("false", .kwFalse), ("for", .kwFor),
   ("fun", .kwFun), ("if", .kwIf), ("nil", .kwNil), ("or", .kwOr), ("print", .kwPrint),
   ("return", .kwReturn), ("super", .kwSuper), ("this", .kwThis), ("true", .kwTrue),
   ("var", .kwVar), ("while", .kwWhile)]

/-- The kind of a word: a keyword if it is one, otherwise an identifier. -/
def ofWord (word : String) : Kind :=
  (keywords.lookup word).getD .identifier

/-- The signs and operators. -/
def signs : List (String × Kind) :=
  [("(", .leftParen), (")", .rightParen), ("\x7b", .leftBrace), ("\x7d", .rightBrace),
   (",", .comma), (".", .dot), ("-", .minus), ("+", .plus), (";", .semicolon), ("/", .slash),
   ("*", .star), ("!", .bang), ("!=", .bangEqual), ("=", .equal), ("==", .equalEqual),
   (">", .greater), (">=", .greaterEqual), ("<", .less), ("<=", .lessEqual)]

end Kind

/-- A classified piece of source. The literal is the name of an identifier, the contents of a
string, the value of a number, and `null` for every other kind; a token that was read from a
document may carry any literal. -/
structure Token where
  kind : Kind
  lexeme : String
  /-- The line on which the token ends, counted from one. -/
  line : Int
  literal : Json := .null

namespace Token

/-- The token that ends a source. -/
def eof (line : Int) : Token :=
  ⟨.eof, "", line, .null⟩

/-- The value that a number token carries. -/
def number (t : Token) : Float :=
  match t.literal with
  | .float x => x
  | .int n => Float.ofInt n
  | _ => 0.0 / 0.0

/-- The contents that a string token carries. -/
def text (t : Token) : String :=
  match t.literal with
  | .str s => s
  | literal => literal.spelled

/-- The parts of a token in a listing: its kind, its lexeme, its literal if it has one, and its
line. -/
def describeParts (kind : Kind) (lexeme : Json) (line : Int) (payload : Json) : String :=
  let payload := match payload with
    | .null => ""
    | payload => ", " ++ payload.shown
  "Token(" ++ kind.name ++ ", " ++ lexeme.shown ++ payload ++ ", line="
    ++ String.ofList (Json.intDigits line) ++ ")"

/-- A token in a listing. -/
def describe (t : Token) : String :=
  describeParts t.kind (.str t.lexeme) t.line t.literal

end Token

end Lox
