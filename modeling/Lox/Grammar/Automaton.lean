import Lox.Decimal.Basic
import Lox.Grammar.Terminal
import Lox.Program.Basic
/-!
# The shift-reduce automaton

The grammar read from left to right with a stack of what is still open. An operand is shifted at
once; an operator first closes everything on the stack that binds at least as tightly, so chains
associate to the left, and a closing parenthesis or a semicolon closes everything up to the
parenthesis or the start of the statement that it belongs to. The state alone says which terminals
may come next.
-/

namespace Lox.Grammar

/-- Something open: what follows it will be its right operand or its contents. -/
inductive Frame where
  | unary (operator : Token)
  /-- The level is that of the operator, counted from the loosest. -/
  | binary (level : Nat) (left : Expr) (operator : Token)
  | paren

/-- What becomes of an expression at its semicolon. -/
inductive Goal where
  | expr
  | print
  | var (name : String)

/-- The statement that an expression completes. -/
def Goal.stmt : Goal → Expr → Stmt
  | expr, e => .expr e
  | print, e => .print e
  | var name, e => .var name e

/-- Where the automaton is in a program. -/
inductive State where
  /-- Between declarations. -/
  | start
  /-- After the word that starts a declaration. -/
  | name
  /-- After the name of a declaration. -/
  | initializer (name : String)
  /-- Where an operand must start. -/
  | operand (stack : List Frame) (goal : Goal)
  /-- After an operand. -/
  | operator (value : Expr) (stack : List Frame) (goal : Goal)

/-- Whether a terminal starts an operand. -/
def startsOperand : Terminal → Bool
  | .identifier | .number | .string | .kwFalse | .kwTrue | .kwNil | .unaryOp | .leftParen => true
  | _ => false

/-- Whether a terminal may come next. -/
def State.accepts : State → Terminal → Bool
  | start, t => t == .kwVar || t == .kwPrint || startsOperand t
  | name, t => t == .identifier
  | initializer _, t => t == .equal || t == .semicolon
  | operand .., t => startsOperand t
  | operator .., t =>
    t == .comparisonOp || t == .equalityOp || t == .factorOp || t == .termOp || t == .semicolon
      || t == .rightParen

/-- The level of a terminal that stands between operands. -/
def level? : Terminal → Option Nat
  | .equalityOp => some 0
  | .comparisonOp => some 1
  | .termOp => some 2
  | .factorOp => some 3
  | _ => none

/-- Closes what binds at least as tightly as a level. -/
def reduce (level : Nat) (value : Expr) : List Frame → Expr × List Frame
  | .unary operator :: stack => reduce level (.unary operator value) stack
  | .binary l left operator :: stack =>
    if level ≤ l then reduce level (.binary left operator value) stack
    else (value, .binary l left operator :: stack)
  | stack => (value, stack)

/-- The token of an operator. -/
def operatorToken (text : List Char) (line : Int) : Token :=
  let lexeme := String.ofList text
  ⟨(Kind.signs.lookup lexeme).getD .eof, lexeme, line, .null⟩

/-- The state after a terminal where an operand must start. -/
def shiftOperand (stack : List Frame) (goal : Goal) (text : List Char) (line : Int) :
    Terminal → Option State
  | .identifier => some (.operator (.var (String.ofList text)) stack goal)
  | .number => some (.operator (.literal (.number (Decimal.ofNumber text).toFloat)) stack goal)
  | .string =>
    some (.operator (.literal (.string (String.ofList (text.drop 1).dropLast))) stack goal)
  | .kwFalse => some (.operator (.literal (.bool false)) stack goal)
  | .kwTrue => some (.operator (.literal (.bool true)) stack goal)
  | .kwNil => some (.operator (.literal .nil) stack goal)
  | .unaryOp => some (.operand (.unary (operatorToken text line) :: stack) goal)
  | .leftParen => some (.operand (.paren :: stack) goal)
  | _ => none

/-- The state after a terminal, and the statement that it completes, if it fits. -/
def State.shift (text : List Char) (line : Int) (t : Terminal) :
    State → Option (State × Option Stmt)
  | start => match t with
    | .kwVar => some (.name, none)
    | .kwPrint => some (.operand [] .print, none)
    | t => (shiftOperand [] .expr text line t).map (·, none)
  | name => match t with
    | .identifier => some (.initializer (String.ofList text), none)
    | _ => none
  | initializer declared => match t with
    | .equal => some (.operand [] (.var declared), none)
    | .semicolon => some (.start, some (.var declared (.literal .nil)))
    | _ => none
  | operand stack goal => (shiftOperand stack goal text line t).map (·, none)
  | operator value stack goal =>
    match level? t with
    | some level =>
      let (value, stack) := reduce level value stack
      some (.operand (.binary level value (operatorToken text line) :: stack) goal, none)
    | none =>
      match t, reduce 0 value stack with
      | .rightParen, (value, .paren :: stack) =>
        some (.operator (.grouping value) stack goal, none)
      | .semicolon, (value, []) => some (.start, some (goal.stmt value))
      | _, _ => none

end Lox.Grammar
