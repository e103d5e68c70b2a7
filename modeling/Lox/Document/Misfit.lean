import Lox.Document.Node
/-!
# Parts out of place

The ways in which a tree that is no program stops whoever walks it.
-/

namespace Lox.Document

/-- What is being done with a node. -/
inductive Activity where
  | printExpr
  | printStmt
  | evaluate
  | execute
  deriving DecidableEq, Repr

/-- Why an activity cannot go on. -/
inductive Misfit where
  /-- The activity has no rule for parts of this kind. -/
  | unexpected (activity : Activity) (found : PartKind)
  /-- The place of an operator holds no token. -/
  | noOperator
  /-- Two parts that hold no comparable value are compared. -/
  | incomparable
  /-- A name or lexeme is no text. -/
  | notText
  /-- The literal of a number is no number. -/
  | notNumber
  /-- The literal of a number is a truth value, which has no digits. -/
  | truthValue
  /-- The literal of a number is beyond all doubles. -/
  | outOfRange
  /-- The literal of a string holds a whole number of too many digits. -/
  | tooManyDigits
  /-- A name is an array or an object, under which nothing can be stored. -/
  | notName
  deriving DecidableEq, Repr

end Lox.Document
