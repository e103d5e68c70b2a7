import Lox.Proofs.Interpreter.Runs
import Lox.Proofs.Program.Layout
import Lox.Proofs.Shell.Session
/-!
# Line by line

The lines of a file, given to the shell one by one, do what the file does
(`Shell.agreesWithFile_of_lines`). The interpreter of the file follows that of
the shell from line to line (`Shell.Idle.passage_cases`), up to the line that
fails, if one does.
-/

namespace Lox

open Document

namespace Shell

/-- The reply to a line that prints a text and may have a value, which is then
shown on a line of its own. -/
def answer (entry : String × Option Value) : Reply :=
  { stdout := entry.1 ++ (entry.2.elim "" fun v => v.debug ++ "\n") }

/-- The report of an error, up to the line that it has on its own. -/
def Reports (reply : Reply) (printed : String) (e : RuntimeError) (before : Int) : Prop :=
  ∃ own : RuntimeError, e = own.mapLine (· + before) ∧
    reply = ⟨printed, "Runtime error: " ++ own.text ++ "\n", false, none⟩

variable {shell : Shell} {n : Interpreter}

/-- **One line of a file**: its part runs as the shell runs the line. -/
theorem Idle.passage_cases (h : shell.Idle) (hn : n.Follows id 0 shell.interpreter) (p : Passage)
    (hcode : (Unicode.trimRight p.line.toList).getLast? = some ';') :
    (∃ value later, n.run (p.part.map Stmt.toNode) = (.ok value, later) ∧
        (shell.step p.line).1 = answer (n.printedSince later, n.lastValue p.part) ∧
        later.Follows id 0 (shell.step p.line).2.interpreter) ∨
      ∃ e later, n.run (p.part.map Stmt.toNode) = (.error (.error e), later) ∧
        Reports (shell.step p.line).1 (n.printedSince later) e p.before ∧
        (shell.step p.line).2.interpreter.scope = later.scope := by
  have hstep : shell.step p.line = shell.runCode p.line := by
    rw [Shell.step, Request.ofLine, if_pos hcode]
  have herror := hn.error_eq_none h.ready.error
  have haccord : Interpreter.Accord (· + p.before) 0 (n.run (p.part.map Stmt.toNode))
      (shell.interpreter.run (p.own.map Stmt.toNode)) :=
    (hn.relabel h.ready.error _).runFrom none p.own
  have hprinted {later given : Interpreter} (hfollows : later.Follows (· + p.before) 0 given) :
      shell.interpreter.printedSince given = n.printedSince later := by
    rw [Interpreter.printedSince, Interpreter.printedSince, hfollows.output, hn.output]
  rw [hstep]
  rcases h.runCode_cases p.read with
    ⟨value, given, hrun, hreply, hready, -⟩ | ⟨own, given, hrun, hreply, hreset, -⟩
  · rcases haccord.cases with ⟨_, _, later, hgiven, hlater, hfollows⟩ | ⟨_, _, _, hgiven, _, _⟩
    · obtain ⟨⟨⟩, rfl⟩ := Prod.mk.inj (hrun.symm.trans hgiven)
      refine .inl ⟨value, later, hlater, ?_, ?_⟩
      · rw [hreply, answer, hprinted hfollows, ← n.run_value herror hlater]
      · rw [hreply]
        exact hfollows.relabel hready.error id
    · exact absurd (hrun.symm.trans hgiven) (by simp)
  · rcases haccord.cases with ⟨_, _, _, hgiven, _, _⟩ | ⟨_, _, later, hgiven, hlater, hfollows⟩
    · exact absurd (hrun.symm.trans hgiven) (by simp)
    · obtain ⟨⟨⟩, rfl⟩ := Prod.mk.inj (hrun.symm.trans hgiven)
      refine .inr ⟨own.mapLine (· + p.before), later, hlater, ⟨own, rfl, ?_⟩, ?_⟩
      · rw [hreply, hprinted hfollows]
      · rw [hreply, hfollows.scope]
        simp [hreset]

/-- The shell answers the lines of some passages as a run of their parts goes,
which ends without an error. -/
structure Completes (shell : Shell) (n : Interpreter) (passages : List Passage)
    (later : Interpreter) : Prop where
  replies : shell.replies (passages.map Passage.line)
    = (n.transcript (passages.map Passage.part)).map answer
  printed : n.printedSince later
    = String.join ((n.transcript (passages.map Passage.part)).map Prod.fst)
  scope : (shell.after (passages.map Passage.line)).interpreter.scope = later.scope

/-- No passages are answered by nothing. -/
theorem Completes.nil (hn : n.Follows id 0 shell.interpreter) : shell.Completes n [] n where
  replies := rfl
  printed := n.printedSince_self
  scope := hn.scope.symm

/-- A passage before others is answered first. -/
theorem Completes.cons {p : Passage} {passages : List Passage} {value : Option Value}
    {next later : Interpreter} (hrun : n.run (p.part.map Stmt.toNode) = (.ok value, next))
    (hreply : (shell.step p.line).1 = answer (n.printedSince next, n.lastValue p.part))
    (hgrows : next.output.toList <+: later.output.toList)
    (hrest : (shell.step p.line).2.Completes next passages later) :
    shell.Completes n (p :: passages) later where
  replies := by
    simp only [List.map_cons, Shell.replies, Interpreter.transcript, hrun, hreply, hrest.replies]
  printed := by
    simp only [List.map_cons, Interpreter.transcript, hrun, String.join_cons, ← hrest.printed]
    exact Interpreter.printedSince_trans (Interpreter.grows_of_run hrun).output hgrows
  scope := hrest.scope

/-- A run of the parts of some passages fails at one of them: those before it
are answered without an error, and its line is answered with the report of the
error and leaves the names that the run leaves. -/
structure FailsAt (shell : Shell) (n : Interpreter) (done : List Passage) (p : Passage)
    (e : RuntimeError) (later : Interpreter) : Prop where
  reached : ∃ value reached,
    n.run ((done.flatMap Passage.part).map Stmt.toNode) = (.ok value, reached) ∧
      shell.Completes n done reached ∧
      reached.run (p.part.map Stmt.toNode) = (.error (.error e), later) ∧
      Reports ((shell.after (done.map Passage.line)).step p.line).1 (reached.printedSince later) e
        p.before
  scope : (shell.after ((done ++ [p]).map Passage.line)).interpreter.scope = later.scope

/-- A run of the parts of a passage and of others is a run of the first and then
of the others. -/
theorem run_passages (hn : n.error = none) {p : Passage} {value : Option Value}
    {next : Interpreter} (hrun : n.run (p.part.map Stmt.toNode) = (.ok value, next))
    (passages : List Passage) :
    n.run (((p :: passages).flatMap Passage.part).map Stmt.toNode)
      = ((next.run ((passages.flatMap Passage.part).map Stmt.toNode)).1.map (·.or value),
        (next.run ((passages.flatMap Passage.part).map Stmt.toNode)).2) := by
  rw [List.flatMap_cons, List.map_append, n.run_append hn, hrun]

/-- A failing passage fails after one more. -/
theorem FailsAt.cons (hn : n.error = none) {p q : Passage} {done : List Passage}
    {value : Option Value} {e : RuntimeError} {next later : Interpreter}
    (hrun : n.run (p.part.map Stmt.toNode) = (.ok value, next))
    (hreply : (shell.step p.line).1 = answer (n.printedSince next, n.lastValue p.part))
    (h : (shell.step p.line).2.FailsAt next done q e later) :
    shell.FailsAt n (p :: done) q e later := by
  obtain ⟨⟨more, reached, hreached, hcompletes, hfails, hreport⟩, hscope⟩ := h
  have hgrows := (Interpreter.grows_of_run hreached).output
  refine ⟨⟨more.or value, reached, ?_, .cons hrun hreply hgrows hcompletes, hfails, hreport⟩,
    hscope⟩
  rw [run_passages hn hrun, hreached]
  rfl

/-- The shell answers the lines of some passages as a run of their parts
goes: all of them if it completes, and those up to the one that fails if it
does not. -/
def AnswersRun (shell : Shell) (n : Interpreter) (passages : List Passage) : Prop :=
  (∃ value later, n.run ((passages.flatMap Passage.part).map Stmt.toNode) = (.ok value, later) ∧
      shell.Completes n passages later) ∨
    ∃ done p rest e later, passages = done ++ p :: rest ∧
      n.run ((passages.flatMap Passage.part).map Stmt.toNode) = (.error (.error e), later) ∧
      shell.FailsAt n done p e later

/-- A passage that runs without an error is answered before the others. -/
theorem AnswersRun.cons (hn : n.error = none) {p : Passage} {passages : List Passage}
    {value : Option Value} {next : Interpreter}
    (hrun : n.run (p.part.map Stmt.toNode) = (.ok value, next))
    (hreply : (shell.step p.line).1 = answer (n.printedSince next, n.lastValue p.part))
    (h : (shell.step p.line).2.AnswersRun next passages) : shell.AnswersRun n (p :: passages) := by
  rcases h with ⟨more, later, hrest, hcompletes⟩ | ⟨done, q, rest, e, later, rfl, hrest, hfails⟩
  · have hgrows := (Interpreter.grows_of_run hrest).output
    refine .inl ⟨more.or value, later, ?_, .cons hrun hreply hgrows hcompletes⟩
    rw [run_passages hn hrun, hrest]
    rfl
  · refine .inr ⟨p :: done, q, rest, e, later, rfl, ?_, .cons hn hrun hreply hfails⟩
    rw [run_passages hn hrun, hrest]
    rfl

/-- **Lines of a file, one by one**, are answered as the file runs. -/
theorem Idle.answersRun (h : shell.Idle) (hn : n.Follows id 0 shell.interpreter)
    (passages : List Passage)
    (hcode : ∀ p ∈ passages, (Unicode.trimRight p.line.toList).getLast? = some ';') :
    shell.AnswersRun n passages := by
  induction passages generalizing shell n with
  | nil => exact .inl ⟨none, n, rfl, .nil hn⟩
  | cons p passages ih =>
    obtain ⟨hp, hcode⟩ := List.forall_mem_cons.1 hcode
    have herror := hn.error_eq_none h.ready.error
    rcases h.passage_cases hn p hp with
      ⟨value, next, hrun, hreply, hnext⟩ | ⟨e, later, hrun, hreport, hscope⟩
    · -- The line is answered, and the file goes on where its part has ended.
      exact .cons herror hrun hreply (ih (h.step p.line) hnext hcode)
    · -- The file fails where the line does.
      refine .inr ⟨[], p, passages, e, later, rfl, ?_,
        ⟨none, n, rfl, .nil hn, hrun, hreport⟩, hscope⟩
      rw [List.flatMap_cons, List.map_append, n.run_append herror, hrun]

/-- A fresh shell that takes lines one by one agrees with a fresh interpreter
that runs them as one file: the lines are passages of the file's program, and
are answered as it runs. -/
def AgreesWithFile (lines : List String) (level : Nat) : Prop :=
  ∃ passages : List Passage, passages.map Passage.line = lines ∧
    ({} : Frontend).read ("\n".intercalate lines) = .ok (passages.flatMap Passage.part) ∧
    ({} : Shell).AnswersRun (.new level) passages

/-- **Line by line and as a file**, programs that end in a semicolon do the
same. -/
theorem agreesWithFile_of_lines {lines : List String}
    (hread : ∀ line ∈ lines, ∃ ss, ({} : Frontend).read line = .ok ss)
    (hcode : ∀ line ∈ lines, (Unicode.trimRight line.toList).getLast? = some ';') (level : Nat) :
    AgreesWithFile lines level := by
  obtain ⟨passages, rfl, hfile⟩ := Frontend.read_lines hread
  refine ⟨passages, rfl, hfile, idle_fresh.answersRun ?_ passages fun p hp => ?_⟩
  · exact Interpreter.follows_new (Nat.zero_le level)
  · exact hcode p.line (List.mem_map_of_mem hp)

/-- Three lines, of which the second one has a value and the last one fails. -/
theorem agreesWithFile_undefined_name :
    let lines := ["var a = nil; // one;", " a; print true;  ", "print b;"]
    AgreesWithFile lines 1
      ∧ (({} : Shell).replies lines).map Reply.stdout = ["", "Bool(true)\nNil\n", ""]
      ∧ (({} : Shell).replies lines).map Reply.stderr
        = ["", "", "Runtime error: UndefinedVariable: Undefined variable 'b'.\n"] := by
  refine ⟨agreesWithFile_of_lines ?_ ?_ 1, by cbv, by cbv⟩
  · simp only [List.forall_mem_cons]
    exact ⟨⟨_, by cbv⟩, ⟨_, by cbv⟩, ⟨_, by cbv⟩, List.forall_mem_nil _⟩
  · simp only [List.forall_mem_cons]
    exact ⟨by cbv, by cbv, by cbv, List.forall_mem_nil _⟩

end Shell

end Lox
