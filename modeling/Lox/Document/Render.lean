import Lox.Document.Misfit
/-!
# Trees in parentheses

A tree as one line of text: an operator or word comes first, its operands follow, and parentheses
hold them together. Strings are quoted as in JSON and other atoms displayed.
-/

namespace Lox.Document

/-- A name or lexeme, if it is text. -/
def text? : Json → Except Misfit String
  | .str s => .ok s
  | _ => .error .notText

/-- A head and its parts in parentheses, if all of them are text. -/
def parenthesize (parts : List Json) : Except Misfit String := do
  return "(" ++ " ".intercalate (← parts.mapM text?) ++ ")"

namespace Node

/-- A literal's value in a tree: strings are quoted, other atoms are displayed, and what is no atom
is described. -/
def renderValue : Node → String
  | atom (.string s) => Json.quoted s
  | atom value => value.display
  | value => value.describe

/-- The lexeme of an operator. -/
def lexeme? : Node → Except Misfit Json
  | token part => .ok part.lexeme
  | _ => .error .noOperator

/-- An expression in parentheses. A variable is its name, just as the document holds it, so an
expression that is no more than a variable need not be text. -/
def renderExpr : Node → Except Misfit Json
  | binary left operator right => do
    .str <$> parenthesize [← operator.lexeme?, ← left.renderExpr, ← right.renderExpr]
  | unary operator operand => do
    .str <$> parenthesize [← operator.lexeme?, ← operand.renderExpr]
  | grouping inner => do .str <$> parenthesize [.str "group", ← inner.renderExpr]
  | literal value => .ok (.str value.renderValue)
  | var name => .ok name
  | node => .error (.unexpected .printExpr node.partKind)

/-- A statement in parentheses. -/
def renderStmt : Node → Except Misfit String
  | printStmt expr => do parenthesize [.str "print", ← expr.renderExpr]
  | exprStmt expr => do parenthesize [.str ";", ← expr.renderExpr]
  | varStmt name initializer => do
    parenthesize [.str "var", name, ← initializer.renderExpr]
  | node => .error (.unexpected .printStmt node.partKind)

end Node

end Lox.Document
