import Lox.CommandLine.Arguments
import Lox.CommandLine.Path
import Lox.Document.Decode
import Lox.Document.Encode
import Lox.Json.Parser
import Lox.Shell
/-!
# Running a command line

What a command line does, as a value: the text it writes to its two outputs, how it ends, and the
files it writes. What is found under a path is given by a function, which is asked about the file
that is read and those that are to be written. A source that is rejected and a program that fails
end with code one; a document that is no program stops the command without a code of its own, and
so do a program whose document is no text and a path that holds no file and cannot hold one.
-/

namespace Lox.CommandLine

open Document

/-- What is found under a path. -/
inductive Entry where
  | missing
  | directory
  /-- The path is too long to hold anything. -/
  | tooLong
  | text (contents : String)

/-- What stops a command without an exit code. -/
inductive Crash where
  | isDirectory
  | tooLong
  | notJson (flaw : Json.Flaw)
  | notWritten (flaw : Json.Flaw)
  | decode (e : DecodeError)
  | misfit (m : Misfit)
  deriving DecidableEq, Repr

/-- How a command ends. -/
inductive Status where
  | exit (code : Nat)
  | crash (c : Crash)
  deriving DecidableEq, Repr

/-- All that a command does. -/
structure Outcome where
  stdout : String := ""
  stderr : String := ""
  status : Status := .exit 0
  /-- The files written, with their contents. -/
  writes : List (String × String) := []

/-- The file that holds the trace. -/
def traceFile : String := "debug.txt"

/-- Text with every line end written as a line feed. -/
def unifyLineEnds : List Char → List Char
  | [] => []
  | '\r' :: '\n' :: rest => '\n' :: unifyLineEnds rest
  | c :: rest => (if c = '\r' then '\n' else c) :: unifyLineEnds rest

/-- The outcome of a source that is rejected. -/
def rejected (notices : List String) (r : Rejection) : Outcome where
  stderr := linesText notices ++ linesText (r.diagnostics.map Diagnostic.text)
  status := .exit 1

/-- Goes on with the text of a file, if there is one. -/
def withFile (look : String → Entry) (path : String) (next : String → Outcome) : Outcome :=
  let path := normalize path
  match look path with
  | .missing => { stderr := "Error: file " ++ path ++ " not found\n", status := .exit 1 }
  | .directory => { status := .crash .isDirectory }
  | .tooLong => { status := .crash .tooLong }
  | .text contents => next (String.ofList (unifyLineEnds contents.toList))

/-- Goes on if a file can be written under a path. -/
def withTarget (look : String → Entry) (path : String) (next : Outcome) : Outcome :=
  match look path with
  | .directory => { status := .crash .isDirectory }
  | .tooLong => { status := .crash .tooLong }
  | .missing | .text _ => next

/-- The trace of an interpreter as a file. -/
def traceWrites (m : Interpreter) : List (String × String) :=
  (m.traceText?.map fun text => (traceFile, text)).toList

namespace Options

/-- How programs are read under the options. -/
def frontend (o : Options) : Frontend :=
  ⟨o.grammar, o.lenient, o.single⟩

/-- Goes on with the program of a source, if it is accepted. -/
def withProgram (o : Options) (source : String) (next : List Stmt → Outcome) : Outcome :=
  let notices := o.frontend.notices source
  match o.frontend.read source with
  | .error r => rejected notices r
  | .ok program =>
    let outcome := next program
    { outcome with stderr := linesText notices ++ outcome.stderr }

/-- Goes on if the trace can be written, should one be asked for. -/
def withTrace (o : Options) (look : String → Entry) (next : Outcome) : Outcome :=
  if 0 < o.verbosity then withTarget look traceFile next else next

/-- Executes statements on a fresh interpreter. -/
def execute (o : Options) (look : String → Entry) (stmts : List Node) : Outcome :=
  o.withTrace look <|
  let started := (Interpreter.new o.verbosity).note
    (.remark ("running " ++ String.ofList (Json.intDigits stmts.length) ++ " statement(s)"))
  let (result, m) := started.run stmts
  let done : Outcome := { stdout := started.printedSince m, writes := traceWrites m }
  match result with
  | .ok _ => done
  | .error (.error e) => { done with stderr := Shell.errorText e, status := .exit 1 }
  | .error (.misfit misfit) => { done with status := .crash (.misfit misfit) }

/-- Lists the tokens of a source. -/
def listTokens (o : Options) (source : String) : Outcome :=
  let f : Frontend := { o.frontend with grammar := false }
  let notices := f.notices source
  match f.tokens source with
  | .error r => rejected notices r
  | .ok tokens =>
    { stdout := linesText (tokens.map Token.describe), stderr := linesText notices }

/-- Lists the statements of a program in parentheses. -/
def listStatements : List Stmt → Outcome
  | [] => {}
  | s :: rest => match s.toNode.renderStmt with
    | .ok text =>
      let outcome := listStatements rest
      { outcome with stdout := text ++ "\n" ++ outcome.stdout }
    | .error misfit => { status := .crash (.misfit misfit) }

/-- The path of the document that is written for a source. -/
def treePath (path : String) : String :=
  normalize path ++ ".ast.json"

/-- Writes the document of a program beside its source, and its path to the output. A document that
is no text leaves a file with as much of it as could be written. -/
def emitTree (look : String → Entry) (path : String) (program : List Stmt) : Outcome :=
  withTarget look (treePath path) <|
  let written := (encodeProgram (program.map Stmt.toNode)).writeLines
  let done : Outcome := { writes := [(treePath path, String.ofList written.text)] }
  match written.flaw with
  | none => { done with stdout := treePath path ++ "\n" }
  | some flaw => { done with status := .crash (.notWritten flaw) }

/-- Executes the program that a document holds. -/
def runTree (o : Options) (look : String → Entry) (text : String) : Outcome :=
  match Json.parse text with
  | .error flaw => { status := .crash (.notJson flaw) }
  | .ok document => match decodeProgram document with
    | .error e => { status := .crash (.decode e) }
    | .ok stmts => o.execute look stmts

/-- A fresh session; it never uses the grammar. -/
def openSession (o : Options) : Shell where
  interpreter := .new o.verbosity
  frontend := { o.frontend with grammar := false }

/-- Runs a session on lines of input. -/
def runSession (o : Options) (look : String → Entry) (input : List String) : Outcome :=
  o.withTrace look <|
  let (reply, shell) := o.openSession.session input
  { stdout := reply.stdout
    stderr := reply.stderr
    status := match reply.misfit with
      | none => .exit 0
      | some misfit => .crash (.misfit misfit)
    writes := traceWrites shell.interpreter }

/-- The option that names a file, unless the name is empty. -/
def fileOption? (o : Options) : Option (Switch × String) :=
  o.file.filter fun entry => entry.2 != ""

/-- The program file, unless its name is empty. -/
def programFile? (o : Options) : Option String :=
  o.program.filter (· != "")

/-- The one file that is read, if any is. -/
def inputFile? (o : Options) : Option String :=
  (o.fileOption?.map Prod.snd).or o.programFile?

/-- The paths that matter to what the options ask for. -/
def paths (o : Options) : List String :=
  traceFile :: (o.inputFile?.map fun path => [normalize path, treePath path]).getD []

/-- What the options ask for, done: an option that names a file comes before the program file, and
without either a session is run. -/
def run (o : Options) (look : String → Entry) (input : List String) : Outcome :=
  match o.fileOption?, o.programFile? with
  | some (.tokens, path), _ => withFile look path o.listTokens
  | some (.printTree, path), _ =>
    withFile look path fun source => o.withProgram source listStatements
  | some (.emitTree, path), _ =>
    withFile look path fun source => o.withProgram source (emitTree look path)
  | some (_, path), _ => withFile look path (o.runTree look)
  | none, some path =>
    withFile look path fun source =>
      o.withProgram source fun p => o.execute look (p.map Stmt.toNode)
  | none, none => o.runSession look input

end Options

/-- What a command line does. A refused one ends with code two, and a request for help with zero. -/
def run (arguments : List String) (look : String → Entry) (input : List String) : Outcome :=
  match parseArguments arguments with
  | .ok options => options.run look input
  | .error .help => {}
  | .error .usage => { status := .exit 2 }

end Lox.CommandLine
