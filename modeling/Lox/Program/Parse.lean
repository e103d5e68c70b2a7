import Lox.Program.Basic
import Lox.Program.Reading
/-!
# Programs from tokens

The program that a token list is: the clauses that are read from it, with every token of theirs
taken for what it stands for.
-/

namespace Lox

/-- The expression that a tree over tokens is. -/
def Expr.ofTree : Program.Tree Token → Expr
  | .binary left operator right => .binary (ofTree left) operator (ofTree right)
  | .unary operator operand => .unary operator (ofTree operand)
  | .grouping inner => .grouping (ofTree inner)
  | .constant value => .literal value
  | .number t => .literal (.number t.number)
  | .string t => .literal (.string t.text)
  | .name t => .var t.lexeme

/-- The statement that a clause is. A missing name is empty, and a missing initializer is nil. -/
def Stmt.ofClause : Program.Clause Token → Stmt
  | .expr tree => .expr (.ofTree tree)
  | .print tree => .print (.ofTree tree)
  | .var name initializer =>
    .var ((name.map Token.lexeme).getD "") ((initializer.map Expr.ofTree).getD (.literal .nil))

/-- The program that a token list is, or all of its faults. Of a single statement only the first
declaration is read. -/
def Program.parse (single : Bool) (ts : List Token) : Except (List Fault) (List Stmt) :=
  (readAll single ts).map (·.map Stmt.ofClause)

end Lox
