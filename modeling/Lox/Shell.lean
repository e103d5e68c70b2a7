import Lox.Frontend
import Lox.Interpreter.Basic
import Lox.Unicode.Space
/-!
# The interactive shell

The shell takes one line at a time. A line that ends in a semicolon, white space aside, is code; of
the other lines those that start with a command word are commands, and what remains is code again.
One interpreter lives through the session, so names stay defined from line to line; an error is
reported and cleared, so the session goes on.
-/

namespace Lox

open Document

/-- What a line asks for. -/
inductive Request where
  | nothing
  | help
  | exit
  /-- The end of the input, written out or reached. -/
  | endOfInput
  | code (text : String)
  deriving DecidableEq, Repr

namespace Request

/-- The characters of command words. -/
def isCommandChar (c : Char) : Bool :=
  c.isAlphanum || c == '_'

/-- What a line without the white space around it asks for. A question mark is short for help. -/
def ofTrimmed : List Char → Request
  | [] => nothing
  | '?' :: _ => help
  | text =>
    match String.ofList (text.takeWhile isCommandChar) with
    | "help" => help
    | "exit" => exit
    | "EOF" => endOfInput
    | _ => code (String.ofList text)

/-- What a line asks for. -/
def ofLine (line : String) : Request :=
  if (Unicode.trimRight line.toList).getLast? = some ';' then code line
  else ofTrimmed (Unicode.trim line.toList)

end Request

/-- What a line of a session leads to. -/
structure Reply where
  stdout : String := ""
  stderr : String := ""
  /-- Whether the session is to end. -/
  stop : Bool := false
  /-- What kept the line from being carried out, if it was no error of the program. -/
  misfit : Option Misfit := none

/-- A session. -/
structure Shell where
  interpreter : Interpreter := {}
  frontend : Frontend := {}

namespace Shell

/-- The words that open a session. -/
def intro : String :=
  "Lox interpreter :: Python backend\nType 'help' for more information, 'exit' to leave."

/-- What is written before each line is read. -/
def prompt : String := "> "

/-- What is written on request. -/
def helpText : String :=
  "Type Lox statements, one line at a time, for example:\n\n"
    ++ "  var x = 5;\n"
    ++ "  print x + 1;\n"
    ++ "  x * 2;\n\n"
    ++ "The value of a bare expression statement is echoed back. "
    ++ "Type 'exit' or press Ctrl-D to leave.\n"

/-- An error of a running program, as it is reported. -/
def errorText (e : RuntimeError) : String :=
  "Runtime error: " ++ e.text ++ "\n"

/-- The echo of a value; what is absent is not echoed. -/
def echo : Option Value → String
  | none | some (.stray .absent _) => ""
  | some value => value.debug ++ "\n"

/-- Runs a line of code. -/
def runCode (shell : Shell) (text : String) : Reply × Shell :=
  let notices := linesText (shell.frontend.notices text)
  match shell.frontend.read text with
  | .error rejection =>
    ({ stderr := notices ++ linesText (rejection.diagnostics.map Diagnostic.text) }, shell)
  | .ok program =>
    let before := shell.interpreter
    match before.run (program.map Stmt.toNode) with
    | (.ok value, after) =>
      ({ stdout := before.printedSince after ++ echo value, stderr := notices },
        { shell with interpreter := after })
    | (.error (.error e), after) =>
      ({ stdout := before.printedSince after, stderr := notices ++ errorText e },
        { shell with interpreter := after.reset })
    | (.error (.misfit misfit), after) =>
      ({ stdout := before.printedSince after, stderr := notices, misfit := some misfit },
        { shell with interpreter := after })

/-- Takes one line. -/
def step (shell : Shell) (line : String) : Reply × Shell :=
  match Request.ofLine line with
  | .nothing => ({}, shell)
  | .help => ({ stdout := helpText }, shell)
  | .exit => ({ stop := true }, shell)
  | .endOfInput => ({ stdout := "\n", stop := true }, shell)
  | .code text => shell.runCode text

/-- Takes lines with a prompt before each until one ends the session. The end of the input counts
as a last line. -/
def loop (shell : Shell) : List String → Reply × Shell
  | [] =>
    let (reply, shell) := shell.step "EOF"
    ({ reply with stdout := prompt ++ reply.stdout }, shell)
  | line :: lines =>
    let (reply, shell) := shell.step line
    let reply := { reply with stdout := prompt ++ reply.stdout }
    if reply.stop || reply.misfit.isSome then (reply, shell)
    else
      let (rest, shell) := shell.loop lines
      ({ rest with stdout := reply.stdout ++ rest.stdout, stderr := reply.stderr ++ rest.stderr },
        shell)

/-- A whole session on some lines. -/
def session (shell : Shell) (lines : List String) : Reply × Shell :=
  let (reply, shell) := shell.loop lines
  ({ reply with stdout := intro ++ "\n" ++ reply.stdout }, shell)

end Shell

end Lox
