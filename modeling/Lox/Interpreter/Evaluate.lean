import Lox.Interpreter.RuntimeError
import Lox.Interpreter.Value
import Lox.Name
/-!
# Evaluation

An expression is evaluated against the names that are defined, left operand before right and both
before their operator. Every operand is evaluated, and the first failure ends the evaluation. Along
with its outcome an evaluation lists the operations of two operands that it completed, in order.
-/

namespace Lox

open Document

/-- Why an evaluation or execution has no result. -/
inductive Failure where
  /-- The program is in error. -/
  | error (e : RuntimeError)
  /-- The tree is no program. -/
  | misfit (m : Misfit)
  deriving DecidableEq, Repr

/-- A completed operation of two operands. -/
structure Operation where
  left : Value
  lexeme : String
  right : Value
  result : Value

/-- An operation as it is traced. -/
def Operation.text (o : Operation) : String :=
  o.left.debug ++ " " ++ o.lexeme ++ " " ++ o.right.debug ++ " -> " ++ o.result.debug

/-- An operator as it is applied: its kind, its lexeme as text, and its line. -/
structure Operator where
  kind : Kind
  lexeme : String
  line : Int

namespace Operator

/-- The operator that a part is, if it is a token. -/
def ofNode : Node → Except Failure Operator
  | .token part => .ok ⟨part.kind, part.lexeme.spelled, part.line⟩
  | _ => .error (.misfit .noOperator)

/-- The failure of an operator that does not apply. -/
def mismatch (op : Operator) (m : Mismatch) : Failure :=
  .error (.typeError m op.line)

/-- An operator applied to one operand. -/
def applyUnary (op : Operator) (operand : Value) : Except Failure Value :=
  match op.kind with
  | .bang => .ok (.atom (.bool !operand.truthy))
  | .minus => match operand with
    | .atom (.number x) => .ok (.atom (.number (-x)))
    | _ => .error (op.mismatch (.negation operand.typeName))
  | _ => .error (op.mismatch (.noUnary op.lexeme))

/-- The sum of two values: strings are joined with the display form of whatever stands beside
them, and numbers are added. -/
def add (op : Operator) (left right : Value) : Except Failure Value :=
  if left.isString || right.isString then .ok (.atom (.string (left.display ++ right.display)))
  else match left.numericPair? right with
    | some (x, y) => .ok (.atom (.number (x + y)))
    | none => .error (op.mismatch (.addition left.typeName right.typeName))

/-- An arithmetic operation on two numbers. -/
def arithmetic (op : Operator) (f : Float → Float → Float) (left right : Value) :
    Except Failure Value :=
  match left.numericPair? right with
  | some (x, y) => .ok (.atom (.number (f x y)))
  | none => .error (op.mismatch (.arithmetic op.lexeme left.typeName right.typeName))

/-- A comparison, which takes numbers only. -/
def compare (op : Operator) (holds : Float → Float → Bool) (left right : Value) :
    Except Failure Value :=
  match left, right with
  | .atom (.number x), .atom (.number y) => .ok (.atom (.bool (holds x y)))
  | _, _ => .error (op.mismatch (.comparison op.lexeme left.typeName right.typeName))

/-- Equality of two values, or its negation. -/
def equality (negated : Bool) (left right : Value) : Except Failure Value :=
  match left.equal right with
  | .ok same => .ok (.atom (.bool (same != negated)))
  | .error m => .error (.misfit m)

/-- An operator applied to two operands. -/
def applyBinary (op : Operator) (left right : Value) : Except Failure Value :=
  match op.kind with
  | .plus => op.add left right
  | .minus => op.arithmetic (· - ·) left right
  | .star => op.arithmetic (· * ·) left right
  | .slash => op.arithmetic (· / ·) left right
  | .greater => op.compare (fun x y => decide (x > y)) left right
  | .greaterEqual => op.compare (fun x y => decide (x ≥ y)) left right
  | .less => op.compare (fun x y => decide (x < y)) left right
  | .lessEqual => op.compare (fun x y => decide (x ≤ y)) left right
  | .equalEqual => equality false left right
  | .bangEqual => equality true left right
  | _ => .error (op.mismatch (.noBinary op.lexeme))

end Operator

/-- The value of a name. -/
def lookup (scope : Keyed Name Value) (name : Json) : Except Failure Value :=
  match Name.ofJson? name with
  | none => .error (.misfit .notName)
  | some name => match scope.get? name with
    | some value => .ok value
    | none => .error (.error (.undefinedVariable name.plain))

/-- What an evaluation comes to. -/
structure Evaluation where
  /-- The operations of two operands that were completed, in order. -/
  operations : List Operation
  outcome : Except Failure Value

namespace Evaluation

/-- An evaluation without operations of two operands. -/
def leaf (outcome : Except Failure Value) : Evaluation :=
  ⟨[], outcome⟩

/-- An evaluation that goes on with the value of another one, if that has one. -/
def andThen (first : Evaluation) (next : Value → Evaluation) : Evaluation :=
  match first.outcome with
  | .ok value =>
    let second := next value
    ⟨first.operations ++ second.operations, second.outcome⟩
  | .error failure => ⟨first.operations, .error failure⟩

/-- The evaluation of an operator of two operands on their values. -/
def ofOperator (operator : Node) (left right : Value) : Evaluation :=
  match Operator.ofNode operator with
  | .error failure => leaf (.error failure)
  | .ok op => match op.applyBinary left right with
    | .ok result => ⟨[⟨left, op.lexeme, right, result⟩], .ok result⟩
    | .error failure => leaf (.error failure)

end Evaluation

/-- The evaluation of an expression where the given names are defined. -/
def evaluate (scope : Keyed Name Value) : Node → Evaluation
  | .literal value => .leaf (.ok (.ofNode value))
  | .grouping inner => evaluate scope inner
  | .var name => .leaf (lookup scope name)
  | .unary operator operand =>
    (evaluate scope operand).andThen fun value =>
      .leaf ((Operator.ofNode operator).bind (·.applyUnary value))
  | .binary left operator right =>
    (evaluate scope left).andThen fun x =>
      (evaluate scope right).andThen fun y => .ofOperator operator x y
  | n => .leaf (.error (.misfit (.unexpected .evaluate n.partKind)))

end Lox
