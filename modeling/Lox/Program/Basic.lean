import Lox.Atom
import Lox.Token
/-!
# Programs

The trees of the language: expressions, which have a value, and statements, which are executed for
their effect. Operators keep the token they were written with, for its line.
-/

namespace Lox

/-- An expression. -/
inductive Expr where
  | binary (left : Expr) (operator : Token) (right : Expr)
  | unary (operator : Token) (operand : Expr)
  | grouping (inner : Expr)
  | literal (value : Atom)
  | var (name : String)
  deriving Inhabited

/-- A statement. A declaration without initializer declares its name as nil. -/
inductive Stmt where
  | expr (expr : Expr)
  | print (expr : Expr)
  | var (name : String) (initializer : Expr)
  deriving Inhabited

end Lox
