import Lox.Diagnostic
/-!
# Errors of a running program

An undefined name has no line; a type error has the line of the operator that met it.
-/

namespace Lox

/-- An operator that does not apply to its operands, which are given by the names of their types. -/
inductive Mismatch where
  | negation (operand : String)
  | addition (left right : String)
  | arithmetic (lexeme left right : String)
  | comparison (lexeme left right : String)
  /-- A token that is no operator of one operand. -/
  | noUnary (lexeme : String)
  /-- A token that is no operator of two operands. -/
  | noBinary (lexeme : String)
  deriving DecidableEq, Repr

/-- A mismatch in words. -/
def Mismatch.message : Mismatch → String
  | negation operand => "Operand of '-' must be a Number, got " ++ operand
  | addition left right => "Addition not supported for " ++ left ++ " and " ++ right
  | arithmetic lexeme left right =>
    "Operator '" ++ lexeme ++ "' not supported for " ++ left ++ " and " ++ right
  | comparison lexeme left right =>
    "Comparison '" ++ lexeme ++ "' not supported for " ++ left ++ " and " ++ right
  | noUnary lexeme => "Unsupported unary operator " ++ lexeme
  | noBinary lexeme => "Unsupported binary operator " ++ lexeme

/-- An error that halts a run. -/
inductive RuntimeError where
  | undefinedVariable (name : String)
  | typeError (mismatch : Mismatch) (line : Int)
  deriving DecidableEq, Repr

namespace RuntimeError

/-- An error as it is reported. -/
def diagnostic : RuntimeError → Diagnostic
  | undefinedVariable name =>
    ⟨"UndefinedVariable", "Undefined variable '" ++ name ++ "'.", none⟩
  | typeError mismatch line => ⟨"TypeError", mismatch.message, some line⟩

/-- An error as one line of text. -/
def text (e : RuntimeError) : String :=
  e.diagnostic.text

end RuntimeError

end Lox
