import Lox.Grammar.Parse
import Lox.Program.Parse
import Lox.Source.Scan
/-!
# From source text to programs

The two ways in which a source becomes a program, behind one function. The recursive way scans the
whole source and parses its tokens; it may be lenient about characters and may stop after one
statement. The grammar has neither option. A source that is not accepted gives one diagnostic for
each error, and a lenient scan leaves notices either way.
-/

namespace Lox

/-- A way of reading programs. -/
structure Frontend where
  /-- Whether the grammar is used; it ignores the two options. -/
  grammar : Bool := false
  /-- Whether characters that begin nothing are passed over with a notice. -/
  lenient : Bool := false
  /-- Whether only the first statement is read. -/
  single : Bool := false

/-- Why a source is not accepted. -/
inductive Rejection where
  | source (faults : List Source.Fault)
  | program (faults : List Program.Fault)
  | grammar (refusal : Grammar.Refusal)

namespace Rejection

/-- The errors of a rejected source, in order. -/
def diagnostics : Rejection → List Diagnostic
  | source faults => faults.map Source.Fault.diagnostic
  | program faults => faults.map Program.Fault.diagnostic
  | grammar refusal => [refusal.diagnostic]

/-- Whether the errors are about characters, and not about the order of tokens. -/
def isLexical : Rejection → Bool
  | source _ => true
  | program _ => false
  | grammar refusal => refusal.isLexical

/-- How many errors of which sort there are, in words. -/
def summary (r : Rejection) : String :=
  toString r.diagnostics.length ++ (if r.isLexical then " lexical error(s)" else " parse error(s)")

end Rejection

namespace Frontend

/-- The tokens of a source, or its errors. -/
def tokens (f : Frontend) (source : String) : Except Rejection (List Token) :=
  ((Source.scan source).result f.lenient).mapError .source

/-- The notices of a lenient scan; the grammar gives none. -/
def notices (f : Frontend) (source : String) : List String :=
  if f.grammar then [] else (Source.scan source).notices f.lenient

/-- The program that a source is, or its errors. -/
def read (f : Frontend) (source : String) : Except Rejection (List Stmt) :=
  if f.grammar then (Grammar.parse source).mapError .grammar
  else do
    let tokens ← f.tokens source
    (Program.parse f.single tokens).mapError .program

end Frontend

/-- Lines of text, each ended by a line feed. -/
def linesText (lines : List String) : String :=
  String.join (lines.map (· ++ "\n"))

end Lox
