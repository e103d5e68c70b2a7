import Lox.Decimal.Basic
import Lox.Diagnostic
import Lox.Source.Piece
/-!
# The tokens and faults of a source

One pass over the pieces of a source gives its tokens, closed by an end token, and the faults found
on the way. A piece's line is one more than the number of line feeds before its end. Characters
that begin nothing are faults of a strict scan; a lenient one reports them as notices and goes on.
Both see the same tokens and the same faults, so they differ in this judgement alone.
-/

namespace Lox.Source

/-- A place in a source that is no token and no gap. -/
inductive Fault where
  | stray (c : Char) (line : Int)
  | unterminated (line : Int)
  deriving DecidableEq, Repr

namespace Fault

/-- A fault as it is reported when it is an error. -/
def diagnostic : Fault → Diagnostic
  | stray c line =>
    ⟨"SyntaxError", "Unexpected character " ++ Text.quoted (String.singleton c) ++ ".", some line⟩
  | unterminated line => ⟨"SyntaxError", "Unterminated string.", some line⟩

/-- Whether a fault is a character that begins nothing. -/
def isStray : Fault → Bool
  | stray .. => true
  | unterminated .. => false

/-- A character that begins nothing, as a lenient scan reports it. -/
def notice? : Fault → Option String
  | stray c line =>
    some ("[line " ++ String.ofList (Json.intDigits line) ++ "] Unexpected character "
      ++ Text.quoted (String.singleton c))
  | unterminated _ => none

end Fault

/-- The literal of a token. -/
def literal (kind : Kind) (text : List Char) : Json :=
  match kind with
  | .identifier => .str (String.ofList text)
  | .string => .str (String.ofList (text.drop 1).dropLast)
  | .number => .float (Decimal.ofNumber text).toFloat
  | _ => .null

/-- The line on which a piece ends, if it starts on the given one. -/
def Piece.endLine (line : Int) (p : Piece) : Int :=
  line + p.text.count '\n'

/-- The tokens among the pieces that start on a line, and the end token. -/
def tokensFrom (line : Int) : List Piece → List Token
  | [] => [Token.eof line]
  | p :: ps =>
    let rest := tokensFrom (p.endLine line) ps
    match p with
    | .token kind text =>
      ⟨kind, String.ofList text, p.endLine line, literal kind text⟩ :: rest
    | _ => rest

/-- The faults among the pieces that start on a line. -/
def faultsFrom (line : Int) : List Piece → List Fault
  | [] => []
  | p :: ps =>
    let rest := faultsFrom (p.endLine line) ps
    match p with
    | .stray c => .stray c line :: rest
    | .unterminated _ => .unterminated (p.endLine line) :: rest
    | _ => rest

/-- What a pass over a source finds. -/
structure Scan where
  tokens : List Token
  faults : List Fault

/-- The pass over a source. -/
def scan (source : String) : Scan :=
  let pieces := cut source.toList
  ⟨tokensFrom 1 pieces, faultsFrom 1 pieces⟩

namespace Scan

/-- The faults that make a scan fail. -/
def errors (lenient : Bool) (s : Scan) : List Fault :=
  if lenient then s.faults.filter (!·.isStray) else s.faults

/-- The lines that a lenient scan reports and a strict one does not. -/
def notices (lenient : Bool) (s : Scan) : List String :=
  if lenient then s.faults.filterMap Fault.notice? else []

/-- The tokens of a source without errors. -/
def result (lenient : Bool) (s : Scan) : Except (List Fault) (List Token) :=
  match s.errors lenient with
  | [] => .ok s.tokens
  | faults => .error faults

end Scan

end Lox.Source
