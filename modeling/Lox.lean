import Lox.Main
import Lox.Document.TokenList
import Lox.Environment.Action
import Lox.Interpreter.Call
import Lox.Proofs.Source.Lexeme
import Lox.Proofs.Source.Tokenized
import Lox.Proofs.Program.Derivation
import Lox.Proofs.Program.Exact
import Lox.Proofs.Grammar.Tokens
import Lox.Proofs.Grammar.Reader
import Lox.Proofs.Grammar.Terminal
import Lox.Proofs.Grammar.Agreement
import Lox.Proofs.Interpreter.Nested
import Lox.Proofs.Grammar.Blame
import Lox.Proofs.Grammar.Strays
import Lox.Proofs.Grammar.ViablePrefix
import Lox.Proofs.Program.Operators
import Lox.Proofs.Binary64.Bits
import Lox.Proofs.Binary64.Nearest
import Lox.Proofs.Decimal.Value
import Lox.Proofs.Decimal.Text
import Lox.Proofs.Result
import Lox.Proofs.Json.Number
import Lox.Proofs.Json.Limit
import Lox.Proofs.Json.Quote
import Lox.Proofs.Json.RoundTrip
import Lox.Proofs.Document.RoundTrip
import Lox.Proofs.CommandLine.Path
import Lox.Proofs.Json.Controls
import Lox.Proofs.CommandLine.Arguments
import Lox.Proofs.CommandLine.SavedTree
import Lox.Proofs.Program.Operands
import Lox.Proofs.Document.Render
import Lox.Proofs.Interpreter.Safety
import Lox.Proofs.Program.Lines
import Lox.Proofs.Interpreter.Follows
import Lox.Proofs.Interpreter.Verbosity
import Lox.Proofs.Source.Layout
import Lox.Proofs.Program.Layout
import Lox.Proofs.Shell.Session
import Lox.Proofs.Shell.Command
import Lox.Proofs.Interpreter.Runs
import Lox.Proofs.Shell.LineByLine
import Lox.Proofs.Interpreter.Atomic
import Lox.Proofs.Text.Line
import Lox.Proofs.Shell.Invariant
import Lox.Proofs.Program.Naturality
import Lox.Proofs.Source.Separated
import Lox.Proofs.Program.Alike
import Lox.Proofs.Program.Boundary
import Lox.Proofs.Interpreter.Course
import Lox.Proofs.Interpreter.Declared
import Lox.Proofs.Atom.Debug
import Lox.Proofs.Interpreter.Printed
import Lox.Proofs.Document.Unambiguous
import Lox.Proofs.Source.Lenient
import Lox.Proofs.CommandLine.Rejected
import Lox.Proofs.Program.Progress
import Lox.Proofs.Interpreter.Trace
import Lox.Proofs.Source.Place
import Lox.Proofs.Program.Order
import Lox.Proofs.Source.LineFeed
import Lox.Proofs.Document.Normal
import Lox.Proofs.Interpreter.Strict
import Lox.Proofs.Atom.Rendering
import Lox.Proofs.Environment.Chain
