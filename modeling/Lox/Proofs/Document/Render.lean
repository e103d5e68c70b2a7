import Lox.Document.Render
import Mathlib
/-!
# Programs in parentheses

A tree that a document holds may have no text in parentheses. A program
always has one: `renderExpr_toNode` and `renderStmt_toNode` give it.
-/

namespace Lox

open Document

/-- Texts in parentheses. -/
def Document.inParens (parts : List String) : String :=
  "(" ++ " ".intercalate parts ++ ")"

/-- Texts can be put in parentheses. -/
theorem Document.parenthesize_texts (parts : List String) :
    parenthesize (parts.map Json.str) = .ok (inParens parts) := by
  have htexts : (parts.map Json.str).mapM text? = .ok parts := by
    induction parts with
    | nil => rfl
    | cons part parts ih =>
      rw [List.map_cons, List.mapM_cons, ih]
      rfl
  rw [parenthesize, htexts]
  rfl

/-- An expression in parentheses. -/
def Expr.render : Expr → String
  | binary left operator right => inParens [operator.lexeme, left.render, right.render]
  | unary operator operand => inParens [operator.lexeme, operand.render]
  | grouping inner => inParens ["group", inner.render]
  | literal value => (Node.atom value).renderValue
  | var name => name

/-- A statement in parentheses. -/
def Stmt.render : Stmt → String
  | expr e => inParens [";", e.render]
  | print e => inParens ["print", e.render]
  | var name e => inParens ["var", name, e.render]

/-- Every expression of a program has a text. -/
theorem renderExpr_toNode (e : Expr) : e.toNode.renderExpr = .ok (.str e.render) := by
  induction e with
  | binary left operator right ihl ihr =>
    have h := parenthesize_texts [operator.lexeme, left.render, right.render]
    simp only [Expr.toNode, Node.renderExpr, ihl, ihr]
    exact congrArg (Json.str <$> ·) h
  | unary operator operand ih =>
    have h := parenthesize_texts [operator.lexeme, operand.render]
    simp only [Expr.toNode, Node.renderExpr, ih]
    exact congrArg (Json.str <$> ·) h
  | grouping inner ih =>
    have h := parenthesize_texts ["group", inner.render]
    simp only [Expr.toNode, Node.renderExpr, ih]
    exact congrArg (Json.str <$> ·) h
  | literal | var => rfl

/-- **Every statement of a program has a text.** -/
theorem renderStmt_toNode (s : Stmt) : s.toNode.renderStmt = .ok s.render := by
  cases s with
  | expr e =>
    simp only [Stmt.toNode, Node.renderStmt, renderExpr_toNode]
    exact parenthesize_texts [";", e.render]
  | print e =>
    simp only [Stmt.toNode, Node.renderStmt, renderExpr_toNode]
    exact parenthesize_texts ["print", e.render]
  | var name e =>
    simp only [Stmt.toNode, Node.renderStmt, renderExpr_toNode]
    exact parenthesize_texts ["var", name, e.render]

end Lox
