import Lox.Proofs.Interpreter.Follows
import Lox.Proofs.Program.Naturality
import Lox.Proofs.Source.Separated
/-!
# Layout has no part in a program

Sources with the same lexemes, whatever separates these, are parsed alike and
run alike: all that may differ is lines (`layout_free`). Two runs are
compared by way of a third one, of the same statements with all operators on
one line, which both of them accord with (`Interpreter.runsAlike`).
-/

namespace Lox

open Program Source

/-- One line for all lines, to compare what may differ in lines alone. -/
def anyLine : Int → Int :=
  fun _ => 0

/-- Tokens of the same content are the same on one line. -/
theorem Token.mapLine_anyLine_of_content {ts us : List Token}
    (h : us.map content = ts.map content) :
    us.map (mapLine anyLine) = ts.map (mapLine anyLine) := by
  have hline : mapLine anyLine = (fun c => ⟨c.1, c.2.1, 0, c.2.2⟩) ∘ content := rfl
  rw [hline, ← List.map_map, h, List.map_map]

/-- **Two programs run alike** on an interpreter: to the same value, or the same
error up to its line, with the same names and the same output. -/
structure Interpreter.RunsAlike (m : Interpreter) (ss ss' : List Stmt) : Prop where
  result : (m.run (ss'.map Stmt.toNode)).1.mapError (Failure.mapLine anyLine)
    = (m.run (ss.map Stmt.toNode)).1.mapError (Failure.mapLine anyLine)
  scope : (m.run (ss'.map Stmt.toNode)).2.scope = (m.run (ss.map Stmt.toNode)).2.scope
  output : (m.run (ss'.map Stmt.toNode)).2.output = (m.run (ss.map Stmt.toNode)).2.output
  error : (m.run (ss'.map Stmt.toNode)).2.error.map (RuntimeError.mapLine anyLine)
    = (m.run (ss.map Stmt.toNode)).2.error.map (RuntimeError.mapLine anyLine)

/-- **Programs that differ in lines run alike** on any interpreter. -/
theorem Interpreter.runsAlike {ss ss' : List Stmt}
    (h : ss'.map (Stmt.mapLine anyLine) = ss.map (Stmt.mapLine anyLine)) (m : Interpreter) :
    m.RunsAlike ss ss' := by
  -- The same run on one line accords with both.
  have hfirst := (m.follows_mapLine anyLine).runFrom none ss
  have hsecond := (m.follows_mapLine anyLine).runFrom none ss'
  rw [h] at hsecond
  exact {
    result := hsecond.result.symm.trans hfirst.result
    scope := hsecond.follows.scope.symm.trans hfirst.follows.scope
    output := hsecond.follows.output.symm.trans hfirst.follows.output
    error := hsecond.follows.error.symm.trans hfirst.follows.error }

namespace Program

/-- What a fault says, apart from its line. -/
def Fault.words (fault : Fault) : String × String :=
  (fault.diagnostic.name, fault.diagnostic.message)

/-- **Two token lists are parsed alike**: as programs that are equal up to the
lines of their operators, and run alike, or with the same faults up to
lines. -/
def ParsesAlike (single : Bool) (ts us : List Token) : Prop :=
  (∃ ss ss', parse single ts = .ok ss ∧ parse single us = .ok ss' ∧
      ss'.map (Stmt.mapLine anyLine) = ss.map (Stmt.mapLine anyLine) ∧
      ∀ m : Interpreter, m.RunsAlike ss ss') ∨
    ∃ faults faults', parse single ts = .error faults ∧ parse single us = .error faults' ∧
      faults'.map Fault.words = faults.map Fault.words

/-- **Tokens of the same content are parsed alike.** -/
theorem parsesAlike_of_content {ts us : List Token}
    (h : us.map Token.content = ts.map Token.content) (single : Bool) :
    ParsesAlike single ts us := by
  have hfirst := parse_mapLine anyLine single ts
  have hsecond := parse_mapLine anyLine single us
  rw [Token.mapLine_anyLine_of_content h, hfirst] at hsecond
  rcases hts : parse single ts with faults | ss <;>
    rcases hus : parse single us with faults' | ss' <;> rw [hts, hus] at hsecond
  · refine .inr ⟨faults, faults', hts, hus, ?_⟩
    have hfaults : faults.map (Fault.mapLine anyLine) = faults'.map (Fault.mapLine anyLine) :=
      Except.error.inj hsecond
    have hwords : Fault.words = Fault.words ∘ Fault.mapLine anyLine := rfl
    rw [hwords, ← List.map_map, ← hfaults, List.map_map]
  · cases hsecond
  · cases hsecond
  · have hstmts : ss'.map (Stmt.mapLine anyLine) = ss.map (Stmt.mapLine anyLine) :=
      (Except.ok.inj hsecond).symm
    exact .inl ⟨ss, ss', hts, hus, hstmts, Interpreter.runsAlike hstmts⟩

end Program

/-- **Layout has no part in a program.** Where the lexemes of a source are written
anew, with any separators between them, the tokens are the same up to their
lines, and they are parsed alike and run alike. -/
theorem layout_free {source joined : String} {ts : List Token}
    (hscan : (scan source).result false = .ok ts) (hjoins : Joins ts.dropLast joined.toList) :
    ∃ us, (scan joined).result false = .ok us ∧ us.map Token.content = ts.map Token.content ∧
      ∀ single, ParsesAlike single ts us := by
  obtain ⟨us, hjoined, hcontent⟩ := scan_joins hscan hjoins
  exact ⟨us, hjoined, hcontent, parsesAlike_of_content hcontent⟩

/-- A program on one line, and its lexemes on lines of their own, with a comment
after the slash. -/
theorem layout_free_division :
    let ts : List Token := [⟨.kwPrint, "print", 1, .null⟩, ⟨.string, "\"x\"", 1, .str "x"⟩,
      ⟨.slash, "/", 1, .null⟩, ⟨.identifier, "a", 1, .str "a"⟩, ⟨.semicolon, ";", 1, .null⟩,
      .eof 1]
    (scan "print\"x\"/a;").result false = .ok ts ∧
      ∃ us, (scan "print\n\"x\" /\t// by\na\n;").result false = .ok us ∧
        us.map Token.content = ts.map Token.content ∧ ∀ single, ParsesAlike single ts us := by
  intro ts
  have hscan : (scan "print\"x\"/a;").result false = .ok ts := by cbv
  have hcomment : IsComment ['/', '/', ' ', 'b', 'y'] := ⟨[' ', 'b', 'y'], rfl, by decide⟩
  have hjoins : Joins ts.dropLast "print\n\"x\" /\t// by\na\n;".toList :=
    .cons ⟨'\n', [], rfl, rfl, .nil⟩ (.cons ⟨' ', [], rfl, rfl, .nil⟩
      (.cons ⟨'\t', _, rfl, rfl, .comment hcomment .nil⟩
        (.cons ⟨'\n', [], rfl, rfl, .nil⟩ (.single _))))
  exact ⟨hscan, layout_free hscan hjoins⟩

end Lox
