import Lox.Proofs.Interpreter.Follows
import Lox.Shell
/-!
# Sessions of the shell

Between two lines the interpreter of a shell is ready (`Shell.ready_step`):
whatever the lines before have done, an error of theirs is cleared, and all
names have atoms for values. So a line that is a program is answered in one of
two ways (`Shell.runCode_cases`): with what the run prints and a line for its
value, if it has one, or with what it prints and a line for its error. A shell without
options is idle (`Shell.Idle`), which says a little more.
-/

namespace Lox

open Document

namespace Interpreter

variable {m : Interpreter}

/-- An interpreter follows itself, and while it keeps no trace and is not
halted it does so on any lines. -/
theorem follows_self (hlevel : m.level = 0) (herror : m.error = none) (f : Int → Int) :
    m.Follows f 0 m where
  scope := rfl
  marks := rfl
  output := rfl
  error := by rw [herror]; rfl
  level := hlevel
  le_level := Nat.zero_le _
  tracing hlow := absurd hlow (by decide)
  part hlow := absurd hlow (by decide)
  whole hlow := absurd hlow (by decide)

/-- A run stays at its level. -/
theorem level_runFrom (hm : m.error = none) (hlevel : m.level = 0) (last : Option Value)
    (ss : List Stmt) : (m.runFrom last (ss.map Stmt.toNode)).2.level = 0 :=
  ((follows_self hlevel hm id).runFrom last ss).follows.level

/-- A reset takes an interpreter out of its error and leaves the rest. -/
theorem reset_eq {e : RuntimeError} (hm : m.error = some e) :
    m.reset = { m.note (.cleared e) with error := none } := by
  rw [reset, hm]

end Interpreter

namespace Shell

/-- The shell after some lines. -/
def after (shell : Shell) (lines : List String) : Shell :=
  lines.foldl (fun shell line => (shell.step line).2) shell

/-- The replies to some lines. -/
def replies (shell : Shell) : List String → List Reply
  | [] => []
  | line :: lines => (shell.step line).1 :: (shell.step line).2.replies lines

variable {shell : Shell}

/-! ## One line of code -/

/-- Code that is not accepted is answered with its errors, and with nothing
else. -/
theorem runCode_of_read_error {text : String} {rejection : Rejection}
    (hread : shell.frontend.read text = .error rejection) :
    shell.runCode text = (⟨"", linesText (shell.frontend.notices text)
      ++ linesText (rejection.diagnostics.map Diagnostic.text), false, none⟩, shell) := by
  rw [runCode, hread]

/-- An atom is echoed in its debug form, on a line of its own. -/
theorem echo_of_atom {value : Option Value} (h : Value.AtomIfAny value) :
    echo value = value.elim "" fun v => v.debug ++ "\n" := by
  cases value with
  | none => rfl
  | some v =>
    obtain ⟨a, rfl⟩ := h v rfl
    rfl

/-- **A program is answered** with what its run prints and its value on a line
of its own, or with the text of its error, which is cleared. Either way the
interpreter is ready again. -/
theorem runCode_cases (h : shell.interpreter.Ready) {text : String} {ss : List Stmt}
    (hread : shell.frontend.read text = .ok ss) :
    (∃ value later, shell.interpreter.run (ss.map Stmt.toNode) = (.ok value, later) ∧
        shell.runCode text = (⟨shell.interpreter.printedSince later
              ++ (value.elim "" fun v => v.debug ++ "\n"),
            linesText (shell.frontend.notices text), false, none⟩,
          { shell with interpreter := later }) ∧ later.Ready) ∨
      ∃ e later, shell.interpreter.run (ss.map Stmt.toNode) = (.error (.error e), later) ∧
        shell.runCode text = (⟨shell.interpreter.printedSince later,
            linesText (shell.frontend.notices text) ++ ("Runtime error: " ++ e.text ++ "\n"),
            false, none⟩,
          { shell with interpreter := later.reset }) ∧
        later.reset = { later.note (.cleared e) with error := none } ∧ later.reset.Ready := by
  rw [runCode, hread]
  rcases (Interpreter.safe_runFrom h Value.atomIfAny_none ss).cases with
    ⟨value, later, hrun, hvalue, hlater⟩ | ⟨e, later, hrun, -, herror, hatoms⟩
  · refine .inl ⟨value, later, hrun, ?_, hlater⟩
    simp only [Interpreter.run, hrun, echo_of_atom hvalue]
  · have hreset := Interpreter.reset_eq herror
    refine .inr ⟨e, later, hrun, ?_, hreset, ?_⟩
    · simp only [Interpreter.run, hrun, errorText]
    · rw [hreset]
      exact ⟨rfl, by simpa using hatoms⟩

/-- **A line is code or a command**, which does nothing to the session. -/
theorem step_cases (shell : Shell) (line : String) :
    (∃ text, Request.ofLine line = .code text ∧ shell.step line = shell.runCode text) ∨
      (∀ text, Request.ofLine line ≠ .code text) ∧ (shell.step line).2 = shell ∧
        (shell.step line).1.misfit = none := by
  rcases hline : Request.ofLine line with _ | _ | _ | _ | text <;> rw [Shell.step, hline]
  case code => exact .inl ⟨text, rfl, rfl⟩
  all_goals exact .inr ⟨by simp, rfl, rfl⟩

/-- Code leaves the interpreter ready, whatever the options are, and the options
as they are. -/
theorem ready_runCode (h : shell.interpreter.Ready) (text : String) :
    (shell.runCode text).2.interpreter.Ready ∧
      (shell.runCode text).2.frontend = shell.frontend := by
  rcases hread : shell.frontend.read text with rejection | ss
  · rw [runCode_of_read_error hread]
    exact ⟨h, rfl⟩
  · rcases runCode_cases h hread with ⟨_, _, -, hcode, hready⟩ | ⟨_, _, -, hcode, -, hready⟩ <;>
      rw [hcode] <;> exact ⟨hready, rfl⟩

/-- **So does every line.** -/
theorem ready_step (h : shell.interpreter.Ready) (line : String) :
    (shell.step line).2.interpreter.Ready ∧
      (shell.step line).2.frontend = shell.frontend := by
  rcases shell.step_cases line with ⟨text, -, hstep⟩ | ⟨-, hstep, -⟩ <;> rw [hstep]
  · exact ready_runCode h text
  · exact ⟨h, rfl⟩

/-! ## Sessions without options -/

/-- A shell between two lines, with no options set. -/
structure Idle (shell : Shell) : Prop where
  frontend : shell.frontend = {}
  level : shell.interpreter.level = 0
  ready : shell.interpreter.Ready

/-- A fresh shell is idle. -/
theorem idle_fresh : ({} : Shell).Idle :=
  ⟨rfl, rfl, rfl, List.forall_mem_nil _⟩

/-- Without options a program is answered without notices, and the
interpreter stays at its level. -/
theorem Idle.runCode_cases (h : shell.Idle) {text : String} {ss : List Stmt}
    (hread : ({} : Frontend).read text = .ok ss) :
    (∃ value later, shell.interpreter.run (ss.map Stmt.toNode) = (.ok value, later) ∧
        shell.runCode text
          = ({ stdout := shell.interpreter.printedSince later
                ++ (value.elim "" fun v => v.debug ++ "\n") },
            { shell with interpreter := later }) ∧ later.Ready ∧ later.level = 0) ∨
      ∃ e later, shell.interpreter.run (ss.map Stmt.toNode) = (.error (.error e), later) ∧
        shell.runCode text
          = (⟨shell.interpreter.printedSince later, "Runtime error: " ++ e.text ++ "\n", false,
              none⟩,
            { shell with interpreter := later.reset }) ∧
        later.reset = { later.note (.cleared e) with error := none } ∧
        later.reset.Ready ∧ later.reset.level = 0 := by
  have hnotices : linesText (shell.frontend.notices text) = "" := by rw [h.frontend]; rfl
  have hlevel := Interpreter.level_runFrom h.ready.error h.level none ss
  rcases Shell.runCode_cases h.ready (h.frontend ▸ hread) with
    ⟨value, later, hrun, hcode, hready⟩ | ⟨e, later, hrun, hcode, hreset, hready⟩ <;>
    rw [Interpreter.run] at hrun <;> rw [hrun] at hlevel <;> rw [hnotices] at hcode
  · exact .inl ⟨value, later, hrun, hcode, hready, hlevel⟩
  · refine .inr ⟨e, later, hrun, ?_, hreset, hready, by simpa [hreset] using hlevel⟩
    rw [hcode, String.empty_append]

/-- **Every line leaves the shell idle.** -/
theorem Idle.step (h : shell.Idle) (line : String) : (shell.step line).2.Idle := by
  obtain ⟨hready, hfrontend⟩ := ready_step h.ready line
  refine ⟨hfrontend.trans h.frontend, ?_, hready⟩
  rcases shell.step_cases line with ⟨text, -, hstep⟩ | ⟨-, hstep, -⟩ <;> rw [hstep]
  · rcases hread : shell.frontend.read text with rejection | ss
    · rw [runCode_of_read_error hread]
      exact h.level
    · rcases h.runCode_cases (h.frontend ▸ hread) with
        ⟨_, _, -, hcode, -, hlevel⟩ | ⟨_, _, -, hcode, -, -, hlevel⟩ <;>
        rw [hcode] <;> exact hlevel
  · exact h.level

/-- So does every session. -/
theorem Idle.after (h : shell.Idle) (lines : List String) : (shell.after lines).Idle := by
  induction lines generalizing shell with
  | nil => exact h
  | cons line lines ih => exact ih (h.step line)

end Shell

end Lox
