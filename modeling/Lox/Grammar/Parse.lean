import Lox.Diagnostic
import Lox.Grammar.Automaton
/-!
# Programs by the grammar

A second way from source text to programs. Terminals are read one at a time, those that the
automaton can accept at that point, and the first problem ends the reading with a single error: a
terminal that does not fit, a character that begins no terminal at all, or an end that comes too
soon. Positions are lines on which terminals start.
-/

namespace Lox.Grammar

/-- Why the grammar refuses a source. -/
inductive Refusal where
  | unexpectedCharacter (c : Char) (line : Int)
  | unexpectedToken (text : String) (line : Int)
  /-- The line is that of the last token. -/
  | unexpectedEnd (line : Int)
  deriving DecidableEq, Repr

namespace Refusal

/-- A refusal as it is reported. -/
def diagnostic : Refusal → Diagnostic
  | unexpectedCharacter c line =>
    ⟨"SyntaxError", "Unexpected character " ++ Text.quoted (String.singleton c) ++ ".", some line⟩
  | unexpectedToken text line =>
    ⟨"ParseError", "Unexpected token " ++ Text.quoted text ++ ".", some line⟩
  | unexpectedEnd line => ⟨"ParseError", "Unexpected end of input.", some line⟩

/-- Whether the source is refused for its characters, and not for the order of its tokens. -/
def isLexical : Refusal → Bool
  | unexpectedCharacter .. => true
  | _ => false

end Refusal

/-- The refusal at a place where no acceptable terminal starts. -/
def refuse (c : Char) (rest : List Char) (line : Int) : Refusal :=
  match Terminal.first? Terminal.all (c :: rest) with
  | some t =>
    .unexpectedToken (String.ofList ((c :: rest).take (t.matchLength (c :: rest)))) line
  | none => .unexpectedCharacter c line

/-- The statements of what is left of a source, from a state of the automaton. `line` is the line
of the text, and `last` that of the last token. -/
def run (state : State) (line last : Int) (text : List Char) : Except Refusal (List Stmt) :=
  match afterLayout line text with
  | (_, ⟨[], _⟩) => match state with
    | .start => .ok []
    | _ => .error (.unexpectedEnd last)
  | (line, ⟨c :: rest, _short⟩) =>
    match Terminal.first? (Terminal.all.filter state.accepts) (c :: rest) with
    | none => .error (refuse c rest line)
    | some t =>
      let size := t.matchLength (c :: rest)
      let lexeme := (c :: rest).take size
      match state.shift lexeme line t with
      | none => .error (.unexpectedToken (String.ofList lexeme) line)
      | some (next, stmt) =>
        (run next (line + lexeme.count '\n') line (rest.drop (size - 1))).map (stmt.toList ++ ·)
termination_by text.length
decreasing_by
  simp only [List.length_cons, List.length_drop] at _short ⊢
  omega

/-- The program that a source is by the grammar. -/
def parse (source : String) : Except Refusal (List Stmt) :=
  run .start 1 1 source.toList

end Lox.Grammar
