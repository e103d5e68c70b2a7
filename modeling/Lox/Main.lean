import Lox.CommandLine.Run
/-!
# The command

The outer layer: it reads the one file that the options name, writes what the command line comes to,
and holds a session with whoever types.
-/

namespace Lox.CommandLine

/-- What is found under a path of the file system. -/
def findEntry (path : String) : IO Entry := do
  try
    return .text (← IO.FS.readFile path)
  catch
    | .noFileOrDirectory .. => return .missing
    | _ => return .directory

/-- Takes lines from the input until one ends the session. -/
partial def converse (shell : Shell) : IO Shell := do
  let stdout ← IO.getStdout
  stdout.putStr Shell.prompt
  stdout.flush
  let line ← (← IO.getStdin).getLine
  let text := if line.isEmpty then "EOF" else (line.dropEndWhile (· == '\n')).toString
  let (reply, shell) := shell.step text
  stdout.putStr reply.stdout
  stdout.flush
  (← IO.getStderr).putStr reply.stderr
  if reply.stop || reply.misfit.isSome then return shell else converse shell

/-- Writes what a command line comes to, and gives its exit code. -/
def publish (outcome : Outcome) : IO UInt32 := do
  for (path, contents) in outcome.writes do
    IO.FS.writeFile path contents
  (← IO.getStdout).putStr outcome.stdout
  (← IO.getStderr).putStr outcome.stderr
  match outcome.status with
  | .exit code => return code.toUInt32
  | .crash .isDirectory =>
    (← IO.getStderr).putStr "Error: a directory is no file\n"
    return 1
  | .crash .tooLong =>
    (← IO.getStderr).putStr "Error: a path is too long\n"
    return 1
  | .crash _ =>
    (← IO.getStderr).putStr "Error: the document is no program\n"
    return 1

/-- Carries out a command line. -/
def perform (arguments : List String) : IO UInt32 := do
  match parseArguments arguments with
  | .error _ => publish (run arguments (fun _ => .missing) [])
  | .ok options =>
    match options.inputFile? with
    | some _ =>
      let entries ← options.paths.mapM fun path => return (path, ← findEntry path)
      publish (options.run (fun path => (entries.lookup path).getD .missing) [])
    | none =>
      (← IO.getStdout).putStr (Shell.intro ++ "\n")
      let shell ← converse (options.openSession)
      publish { writes := traceWrites shell.interpreter }

end Lox.CommandLine

/-- The entry point. -/
def main (arguments : List String) : IO UInt32 :=
  Lox.CommandLine.perform arguments
