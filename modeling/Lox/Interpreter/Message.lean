import Lox.Interpreter.Evaluate
/-!
# Messages of a trace

What an interpreter notes while it works. Statements are noted as they are rendered, so a message
says all there is to say about its moment.
-/

namespace Lox

/-- A message of a trace. -/
inductive Message where
  /-- A statement is about to be executed. -/
  | executing (stmt : String)
  /-- A statement is skipped, and with it the rest of its run. -/
  | skipping (stmt : String)
  | defined (name : String) (value : Value)
  | operated (operation : Operation)
  /-- An error has filled the error slot. -/
  | halted (e : RuntimeError)
  /-- The error slot is cleared of an error. -/
  | cleared (e : RuntimeError)
  /-- A message from outside. -/
  | remark (text : String)

/-- A message as one line of the trace. -/
def Message.text : Message → String
  | executing stmt => "execute " ++ stmt
  | skipping stmt => "halted, skipping " ++ stmt
  | defined name value => "define " ++ name ++ ": " ++ value.typeName ++ " = " ++ value.debug
  | operated operation => operation.text
  | halted e => "halt: " ++ e.text
  | cleared e => "reset after " ++ e.text
  | remark text => text

end Lox
