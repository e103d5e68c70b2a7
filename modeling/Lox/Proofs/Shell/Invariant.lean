import Lox.Proofs.Interpreter.Atomic
import Lox.Proofs.Shell.Session
import Lox.Proofs.Text.Line
/-!
# What holds after every line

Whichever lines a session has had, the next one is carried out and leaves the
interpreter running with all its names (`Shell.Orderly`). A line that is not
accepted does nothing but report its errors, each on a line (`Shell.Rejects`),
and one whose run fails leaves the names as the statements before the failing
one do (`Shell.Fails`). Every line of every session is orderly
(`Shell.orderly_session`), since a session keeps the interpreter ready.
-/

namespace Lox.Shell

open Document

/-- **A line that is not accepted**: its errors are reported, each on a line of
its own after the notices, and nothing else happens. -/
structure Rejects (shell : Shell) (line text : String) (rejection : Rejection) : Prop where
  session : (shell.step line).2 = shell
  stdout : (shell.step line).1.stdout = ""
  stderr : (shell.step line).1.stderr = linesText
    (shell.frontend.notices text ++ rejection.diagnostics.map Diagnostic.text)
  lines : ∀ report ∈ shell.frontend.notices text ++ rejection.diagnostics.map Diagnostic.text,
    Text.IsLine report
  count : (shell.step line).1.stderr.toList.count '\n'
    = (shell.frontend.notices text).length + rejection.diagnostics.length

/-- **A line whose run fails**: the names that are left, and what is printed, are
those of the statements before the failing one, and its error is reported. -/
structure Fails (shell : Shell) (line text : String) (ss : List Stmt) (e : RuntimeError)
    (later : Interpreter) : Prop where
  stops : ∃ before s after reached, ss = before ++ s :: after ∧
    shell.interpreter.StopsAt (before.map Stmt.toNode) s.toNode e reached later ∧
    (shell.step line).2.interpreter.scope = reached.scope ∧
    (shell.step line).1.stdout = shell.interpreter.printedSince reached
  stderr : (shell.step line).1.stderr
    = linesText (shell.frontend.notices text) ++ ("Runtime error: " ++ e.text ++ "\n")

/-- **What a line does to a session**, whatever it holds. -/
structure Orderly (shell : Shell) (line : String) : Prop where
  /-- Nothing keeps the line from being carried out. -/
  misfit : (shell.step line).1.misfit = none
  halted : (shell.step line).2.interpreter.halted = false
  names : shell.interpreter.scope.keys <+: (shell.step line).2.interpreter.scope.keys
  /-- What is no code changes nothing. -/
  command : (∀ text, Request.ofLine line ≠ .code text) → (shell.step line).2 = shell
  rejected : ∀ text rejection, Request.ofLine line = .code text →
    shell.frontend.read text = .error rejection → shell.Rejects line text rejection
  failed : ∀ text ss e later, Request.ofLine line = .code text →
    shell.frontend.read text = .ok ss →
    shell.interpreter.run (ss.map Stmt.toNode) = (.error (.error e), later) →
      shell.Fails line text ss e later

variable {shell : Shell} {line text : String}

/-- Code that is not accepted is rejected. -/
theorem rejects_of_read_error (hline : Request.ofLine line = .code text) {rejection : Rejection}
    (hread : shell.frontend.read text = .error rejection) :
    shell.Rejects line text rejection := by
  have hstep : shell.step line = shell.runCode text := by rw [Shell.step, hline]
  have hstderr : (shell.step line).1.stderr = linesText
      (shell.frontend.notices text ++ rejection.diagnostics.map Diagnostic.text) := by
    rw [hstep, runCode_of_read_error hread, linesText_append]
  refine ⟨?_, ?_, hstderr, Frontend.isLine_of_mem_reports hread, ?_⟩
  · rw [hstep, runCode_of_read_error hread]
  · rw [hstep, runCode_of_read_error hread]
  · rw [hstderr, Frontend.count_newline_reports hread]

/-- A program that fails leaves what the statements before the failing one
do. -/
theorem fails_of_run_error (h : shell.interpreter.Ready) (hline : Request.ofLine line = .code text)
    {ss : List Stmt} (hread : shell.frontend.read text = .ok ss) {e : RuntimeError}
    {later : Interpreter}
    (hrun : shell.interpreter.run (ss.map Stmt.toNode) = (.error (.error e), later)) :
    shell.Fails line text ss e later := by
  have hstep : shell.step line = shell.runCode text := by rw [Shell.step, hline]
  obtain ⟨nodes, node, rest, reached, hnodes, hstops⟩ := Interpreter.exists_stopsAt h.error hrun
  obtain ⟨before, s, after, rfl, rfl, rfl⟩ := Interpreter.exists_append_of_map hnodes
  rcases runCode_cases h hread with ⟨_, _, hrun', -⟩ | ⟨e', last, hrun', hcode, hreset, -⟩
  · cases hrun.symm.trans hrun'
  · obtain ⟨⟨⟩, rfl⟩ := Prod.mk.inj (hrun.symm.trans hrun')
    refine ⟨⟨before, s, after, reached, rfl, hstops, ?_, ?_⟩, ?_⟩ <;> rw [hstep, hcode]
    · -- Clearing the error is noted, but it keeps the names.
      rw [hreset, ← hstops.scope]
      exact Interpreter.note_scope _ _
    · -- The failing statement prints nothing.
      dsimp only
      rw [Interpreter.printedSince, hstops.output, Interpreter.printedSince]

/-- Code defines names after those that are defined. -/
theorem names_runCode (h : shell.interpreter.Ready) (text : String) :
    shell.interpreter.scope.keys <+: (shell.runCode text).2.interpreter.scope.keys := by
  rcases hread : shell.frontend.read text with rejection | ss
  · rw [runCode_of_read_error hread]
  · rcases runCode_cases h hread with
      ⟨_, later, hrun, hcode, -⟩ | ⟨_, later, hrun, hcode, hreset, -⟩ <;> rw [hcode]
    · exact (Interpreter.grows_of_run hrun).names
    · rw [hreset]
      simpa using (Interpreter.grows_of_run hrun).names

/-- **Every line is orderly** while the interpreter is ready. -/
theorem orderly_of_ready (h : shell.interpreter.Ready) (line : String) : shell.Orderly line where
  misfit := by
    rcases shell.step_cases line with ⟨text, -, hstep⟩ | ⟨-, -, hmisfit⟩
    · rw [hstep]
      rcases hread : shell.frontend.read text with rejection | ss
      · rw [runCode_of_read_error hread]
      · rcases runCode_cases h hread with ⟨_, _, -, hcode, -⟩ | ⟨_, _, -, hcode, -⟩ <;> rw [hcode]
    · exact hmisfit
  halted := Interpreter.halted_eq_false _ (ready_step h line).1.error
  names := by
    rcases shell.step_cases line with ⟨text, -, hstep⟩ | ⟨-, hstep, -⟩ <;> rw [hstep]
    exact names_runCode h text
  command hcode := by
    rcases shell.step_cases line with ⟨text, hline, -⟩ | ⟨-, hstep, -⟩
    · exact absurd hline (hcode text)
    · exact hstep
  rejected _ _ hline hread := rejects_of_read_error hline hread
  failed _ _ _ _ hline hread hrun := fails_of_run_error h hline hread hrun

/-- A session keeps the interpreter ready, and the options as they are. -/
theorem ready_after (h : shell.interpreter.Ready) (lines : List String) :
    (shell.after lines).interpreter.Ready ∧ (shell.after lines).frontend = shell.frontend := by
  induction lines generalizing shell with
  | nil => exact ⟨h, rfl⟩
  | cons line lines ih =>
    obtain ⟨hstep, hsame⟩ := ready_step h line
    obtain ⟨hready, hfrontend⟩ := ih hstep
    exact ⟨hready, hfrontend.trans hsame⟩

/-- No name disappears in a session. -/
theorem names_after (h : shell.interpreter.Ready) (lines : List String) :
    shell.interpreter.scope.keys <+: (shell.after lines).interpreter.scope.keys := by
  induction lines generalizing shell with
  | nil => exact List.prefix_rfl
  | cons line lines ih => exact (orderly_of_ready h line).names.trans (ih (ready_step h line).1)

/-- **Every line of every session is orderly**, whatever the lines before it were
and whatever the options are, and no name that has been defined disappears. -/
theorem orderly_session (level : Nat) (frontend : Frontend) (earlier : List String)
    (line : String) (more : List String) :
    let shell := Shell.after { interpreter := .new level, frontend } earlier
    shell.frontend = frontend ∧ shell.interpreter.halted = false ∧ shell.Orderly line ∧
      shell.interpreter.scope.keys <+: (shell.after more).interpreter.scope.keys := by
  intro shell
  have hnew : ({ interpreter := .new level, frontend } : Shell).interpreter.Ready :=
    Interpreter.ready_new level
  obtain ⟨hready, hfrontend⟩ := ready_after hnew earlier
  exact ⟨hfrontend, Interpreter.halted_eq_false _ hready.error, orderly_of_ready hready line,
    names_after hready more⟩

set_option maxRecDepth 2000 in
/-- A line that fails at its second statement, which declares a name anew. -/
theorem fails_negated_nil :
    ∃ later, (Shell.after { interpreter := .new 1, frontend := { lenient := true } }
        ["var a;", "exit"]).Fails "print a; var a = -a;" "print a; var a = -a;"
      [.print (.var "a"), .var "a" (.unary ⟨.minus, "-", 1, .null⟩ (.var "a"))]
      (.typeError (.negation "Nil") 1) later := by
  have hline : Request.ofLine "print a; var a = -a;" = .code "print a; var a = -a;" := by cbv
  have hread : ({ lenient := true } : Frontend).read "print a; var a = -a;"
      = .ok [.print (.var "a"), .var "a" (.unary ⟨.minus, "-", 1, .null⟩ (.var "a"))] := by cbv
  obtain ⟨hfrontend, -, horderly, -⟩ := orderly_session 1 { lenient := true } ["var a;", "exit"]
    "print a; var a = -a;" []
  refine ⟨_, horderly.failed _ _ _ _ hline ?_ (Prod.ext (by cbv) rfl)⟩
  rw [hfrontend, hread]

end Lox.Shell
