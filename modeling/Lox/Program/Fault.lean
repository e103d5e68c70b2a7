import Lox.Diagnostic
import Lox.Program.Tree
/-!
# Faults of a token list

What the grammar expected at a place in a token list and what stood there instead. While a list is
read, the place is given by the tokens that are left; as it is reported, by the lexeme found there
and its line.
-/

namespace Lox.Program

/-- What the grammar asks for at a place. -/
inductive Expectation where
  | variableName
  | semicolonAfterDeclaration
  | semicolonAfterValue
  | semicolonAfterExpression
  | closingParen
  | expression
  deriving DecidableEq, Repr

/-- An expectation in words. -/
def Expectation.message : Expectation → String
  | variableName => "Expect variable name."
  | semicolonAfterDeclaration => "Expect ';' after variable declaration."
  | semicolonAfterValue => "Expect ';' after value."
  | semicolonAfterExpression => "Expect ';' after expression."
  | closingParen => "Expect ')' after expression."
  | expression => "Expect expression."

/-- An expectation that the first of the tokens that are left does not meet. -/
structure Miss (τ : Type) where
  expected : Expectation
  left : List τ

/-- A fault as it is reported. -/
structure Fault where
  expected : Expectation
  /-- The lexeme found, as messages show it; nothing at the end of the tokens. -/
  found : Option String
  line : Int
  /-- How many tokens are left from the fault on. Counted from the end, its place does not depend on
  what was read before. -/
  left : Nat
  deriving DecidableEq, Repr

/-- The fault that a miss is in a list of tokens that ends on the given line. -/
def Miss.fault {τ : Type} [TokenLike τ] (endLine : Int) (m : Miss τ) : Fault :=
  match m.left with
  | [] => ⟨m.expected, none, endLine, 0⟩
  | t :: rest =>
    ⟨m.expected, if TokenLike.kind t = .eof then none else some (TokenLike.shown t),
      TokenLike.line t, rest.length + 1⟩

/-- A fault in words. -/
def Fault.diagnostic (f : Fault) : Diagnostic :=
  let place := match f.found with
    | none => "at end"
    | some shown => "at " ++ shown
  ⟨"ParseError", f.expected.message ++ " (" ++ place ++ ")", some f.line⟩

end Lox.Program
