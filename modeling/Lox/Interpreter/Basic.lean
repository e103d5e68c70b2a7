import Lox.Document.Render
import Lox.Interpreter.Message
/-!
# The interpreter

An interpreter runs statements one after another against the names defined so far. The first
runtime error fills its error slot and halts it: from then on expressions evaluate to nil and
statements do nothing, until the slot is cleared. What was done before the error stays done.

With a level of one or more it keeps a trace until that is closed: at level one the statements, the
errors and what clears them, at level two the definitions as well, and from level three on every
operation of two operands.
-/

namespace Lox

open Document

/-- The state of an interpreter. -/
structure Interpreter where
  scope : Keyed Name Value := []
  /-- How many values that are no atoms have been marked. -/
  marks : Nat := 0
  /-- The error that halted the interpreter, until it is cleared. -/
  error : Option RuntimeError := none
  level : Nat := 0
  /-- Whether the trace is still kept. -/
  tracing : Bool := false
  trace : Array Message := #[]
  /-- The lines that were printed. -/
  output : Array String := #[]

namespace Interpreter

/-- A fresh interpreter. -/
def new (level : Nat) : Interpreter :=
  { level, tracing := decide (0 < level) }

/-- Adds a message to the trace, if one is kept. -/
def note (message : Message) (m : Interpreter) : Interpreter :=
  if m.tracing then { m with trace := m.trace.push message } else m

/-- Ends the trace. -/
def close (m : Interpreter) : Interpreter :=
  { m with tracing := false }

/-- Whether an error has halted the interpreter. -/
def halted (m : Interpreter) : Bool :=
  m.error.isSome

/-- Clears the error slot; what is defined stays defined. -/
def reset (m : Interpreter) : Interpreter :=
  match m.error with
  | some e => { m.note (.cleared e) with error := none }
  | none => m

/-- Defines a name, in place of an older definition. -/
def define (name : Name) (value : Value) (m : Interpreter) : Interpreter :=
  { m with scope := m.scope.set name value }

/-- A value with a mark, if it is no atom. One that has no mark gets the next one. -/
def mark (m : Interpreter) : Value → Value × Interpreter
  | .stray n none => (.stray n (some m.marks), { m with marks := m.marks + 1 })
  | value => (value, m)

/-- Prints a line. -/
def print (line : String) (m : Interpreter) : Interpreter :=
  { m with output := m.output.push line }

/-- Fills the error slot. -/
def halt (e : RuntimeError) (m : Interpreter) : Interpreter :=
  { m.note (.halted e) with error := some e }

/-- Traces the operations of an evaluation. -/
def noteOperations (operations : List Operation) (m : Interpreter) : Interpreter :=
  if 3 ≤ m.level then operations.foldl (fun m o => m.note (.operated o)) m else m

/-- The value of an expression. -/
def evaluate (m : Interpreter) (expr : Node) : Except Failure Value × Interpreter :=
  if m.halted then (.ok (.atom .nil), m)
  else
    let evaluation := Lox.evaluate m.scope expr
    let m := m.noteOperations evaluation.operations
    match evaluation.outcome with
    | .ok value => (.ok value, m)
    | .error (.error e) => (.error (.error e), m.halt e)
    | .error (.misfit misfit) => (.error (.misfit misfit), m)

/-- Defines the name of a declaration. -/
def declare (name : Json) (value : Value) (m : Interpreter) : Except Failure Unit × Interpreter :=
  match Name.ofJson? name with
  | none => (.error (.misfit .notName), m)
  | some name =>
    let (value, m) := m.mark value
    let m := m.define name value
    (.ok (), if 2 ≤ m.level then m.note (.defined name.plain value) else m)

/-- Carries out a statement on an interpreter that is not halted. -/
def perform (m : Interpreter) : Node → Except Failure (Option Value) × Interpreter
  | .exprStmt expr =>
    let (result, m) := m.evaluate expr
    (result.map some, m)
  | .printStmt expr =>
    match m.evaluate expr with
    | (.ok value, m) => (.ok none, m.print value.debug)
    | (.error failure, m) => (.error failure, m)
  | .varStmt name initializer =>
    match m.evaluate initializer with
    | (.ok value, m) =>
      let (result, m) := m.declare name value
      (result.map fun _ => none, m)
    | (.error failure, m) => (.error failure, m)
  | node => (.error (.misfit (.unexpected .execute node.partKind)), m)

/-- Adds a message about a statement to the trace, from level one on. The statement is put in
parentheses for it even if no trace is kept any more. -/
def noteStmt (message : String → Message) (stmt : Node) (m : Interpreter) :
    Except Failure Unit × Interpreter :=
  if 1 ≤ m.level then
    match stmt.renderStmt with
    | .ok text => (.ok (), m.note (message text))
    | .error misfit => (.error (.misfit misfit), m)
  else (.ok (), m)

/-- Executes a statement. Only an expression has a value. -/
def execute (m : Interpreter) (stmt : Node) : Except Failure (Option Value) × Interpreter :=
  if m.halted then (.ok none, m)
  else match m.noteStmt .executing stmt with
    | (.ok (), m) => m.perform stmt
    | (.error failure, m) => (.error failure, m)

/-- Whether a node is a statement with a value. -/
def hasValue : Node → Bool
  | .exprStmt _ => true
  | _ => false

/-- Executes statements in order. The value is that of the last expression statement, or `last` if
there is none. A halted interpreter skips the first statement it comes to and what follows. -/
def runFrom (last : Option Value) (m : Interpreter) :
    List Node → Except Failure (Option Value) × Interpreter
  | [] => (.ok last, m)
  | stmt :: rest =>
    if m.halted then
      let (result, m) := m.noteStmt .skipping stmt
      (result.map fun _ => last, m)
    else match m.execute stmt with
      | (.ok value, m) => runFrom (if hasValue stmt then value else last) m rest
      | (.error failure, m) => (.error failure, m)

/-- Runs a list of statements. -/
def run (m : Interpreter) (stmts : List Node) : Except Failure (Option Value) × Interpreter :=
  runFrom none m stmts

/-- The lines printed since an earlier state, as text. -/
def printedSince (earlier m : Interpreter) : String :=
  String.join ((m.output.toList.drop earlier.output.size).map (· ++ "\n"))

/-- The trace as text, each message on a line; nothing at level zero. -/
def traceText? (m : Interpreter) : Option String :=
  if 0 < m.level then some (String.join (m.trace.toList.map (·.text ++ "\n"))) else none

end Interpreter

end Lox
