import Lox.Json.Printer
/-!
# Diagnostics

The form in which every problem of a program is reported: the name of its kind, a message, and the
line it is about, if there is one.
-/

namespace Lox

/-- A problem as it is reported. -/
structure Diagnostic where
  name : String
  message : String
  line : Option Int
  deriving DecidableEq, Repr

/-- A diagnostic as one line of text. -/
def Diagnostic.text (d : Diagnostic) : String :=
  let report := d.name ++ ": " ++ d.message
  match d.line with
  | none => report
  | some line => "[line " ++ String.ofList (Json.intDigits line) ++ "] " ++ report

end Lox
