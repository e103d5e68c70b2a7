import Lox.Atom
import Lox.Token
/-!
# Trees over tokens

What the reading of a token list yields: trees that hold the very tokens of the list. Which tree it
is depends on nothing but the kinds of the tokens, so trees are over any type whose members have a
kind, a line and a lexeme to show.
-/

namespace Lox.Program

/-- What can stand in a token list. -/
class TokenLike (τ : Type) where
  kind : τ → Kind
  line : τ → Int
  /-- The lexeme as messages show it. -/
  shown : τ → String

instance : TokenLike Token where
  kind := Token.kind
  line := Token.line
  shown t := Text.quoted t.lexeme

/-- An expression over tokens. -/
inductive Tree (τ : Type) where
  | binary (left : Tree τ) (operator : τ) (right : Tree τ)
  | unary (operator : τ) (operand : Tree τ)
  | grouping (inner : Tree τ)
  /-- A word that stands for a value. -/
  | constant (value : Atom)
  | number (token : τ)
  | string (token : τ)
  | name (token : τ)
  deriving Inhabited

/-- A statement over tokens. A declaration may lack its name, if that is a fault, and its
initializer. -/
inductive Clause (τ : Type) where
  | expr (tree : Tree τ)
  | print (tree : Tree τ)
  | var (name : Option τ) (initializer : Option (Tree τ))
  deriving Inhabited

end Lox.Program
