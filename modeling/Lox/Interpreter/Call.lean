import Lox.Interpreter.Basic
/-!
# Calls on an interpreter

The operations of an interpreter as data, so that sessions are lists of calls. Only running,
executing and evaluating can fail, and only evaluating always has a value.
-/

namespace Lox

open Document

/-- An operation of an interpreter. -/
inductive Call where
  | run (stmts : List Node)
  | execute (stmt : Node)
  | evaluate (expr : Node)
  | define (name : Name) (value : Value)
  | reset
  | remark (text : String)
  | close

/-- What a call comes to: a failure, or a value if the operation has one. -/
abbrev Answer := Except Failure (Option Value)

namespace Interpreter

/-- Carries out a call. -/
def call (m : Interpreter) : Call → Answer × Interpreter
  | .run stmts => m.run stmts
  | .execute stmt => m.execute stmt
  | .evaluate expr =>
    let (result, m) := m.evaluate expr
    (result.map some, m)
  | .define name value => (.ok none, m.define name value)
  | .reset => (.ok none, m.reset)
  | .remark text => (.ok none, m.note (.remark text))
  | .close => (.ok none, m.close)

/-- Carries out calls one after another, with the answer to each and the state after it. -/
def session (m : Interpreter) : List Call → List (Answer × Interpreter)
  | [] => []
  | c :: rest => m.call c :: (m.call c).2.session rest

end Interpreter

end Lox
