import Lox.Proofs.Interpreter.Effect
import Lox.Proofs.Interpreter.Safety
/-!
# Runs, one after another

A run of two lists of statements is a run of the first and, unless that
fails, one of the second (`run_append`). So the parts of a program can be run
one by one, each where the one before it has ended. What a part prints is
printed after what was printed before (`printedSince_trans`), and the value of
its run is that of its last expression statement (`run_value`).
-/

namespace Lox.Interpreter

open Document

variable {m later : Interpreter} {stmt : Node} {failure : Failure}

/-! ## One list after another -/

/-- After a statement that does not fail the interpreter is not halted. -/
theorem error_eq_none_of_execute (hm : m.error = none) {value : Option Value}
    (h : m.execute stmt = (.ok value, later)) : later.error = none := by
  have hraises := raises_execute hm stmt
  rw [h] at hraises
  exact hraises.error_eq_none

/-- Nor is it after a run that does not fail. -/
theorem error_eq_none_of_run (hm : m.error = none) {stmts : List Node} {value : Option Value}
    (h : m.run stmts = (.ok value, later)) : later.error = none := by
  have hraises := raises_runFrom hm none stmts
  rw [show m.runFrom none stmts = _ from h] at hraises
  exact hraises.error_eq_none

/-- A statement with a value has one, once it is executed. -/
theorem isSome_of_hasValue (hm : m.error = none) {stmt : Node} (hstmt : hasValue stmt = true)
    {value : Option Value} {later : Interpreter} (h : m.execute stmt = (.ok value, later)) :
    value.isSome = true := by
  cases stmt with
  | exprStmt expr =>
    rw [execute, halted_eq_false m hm, if_neg Bool.false_ne_true] at h
    split at h
    · next noted _ =>
      rw [perform] at h
      obtain ⟨v, -, rfl⟩ := eq_ok_of_map (Prod.mk.inj h).1
      rfl
    · cases h
  | _ => cases hstmt

/-- The last value of a run is the one from before it, unless the run has a
value of its own. -/
theorem runFrom_eq_run (hm : m.error = none) (last : Option Value) (stmts : List Node) :
    m.runFrom last stmts = ((m.run stmts).1.map (·.or last), (m.run stmts).2) := by
  simp only [run]
  induction stmts generalizing m last with
  | nil => rfl
  | cons stmt rest ih =>
    simp only [runFrom, halted_eq_false m hm, Bool.false_eq_true, if_false]
    rcases hexec : m.execute stmt with ⟨failure | value, later⟩
    · rfl
    · have hlater := error_eq_none_of_execute hm hexec
      dsimp only
      rw [ih hlater, ih hlater (if hasValue stmt then value else none)]
      congr 1
      rcases (later.runFrom none rest).1 with failure | more
      · rfl
      · by_cases hstmt : hasValue stmt = true
        · obtain ⟨v, rfl⟩ := Option.isSome_iff_exists.1 (isSome_of_hasValue hm hstmt hexec)
          simp [Except.map, hstmt]
        · simp [Except.map, hstmt]

/-- A run whose first statement fails ends there. -/
theorem run_cons_of_error (hm : m.error = none) (h : m.execute stmt = (.error failure, later))
    (rest : List Node) :
    m.run (stmt :: rest) = (.error failure, later) := by
  simp only [run, runFrom, halted_eq_false m hm, Bool.false_eq_true, if_false, h]

/-- A run is the run of its first statement and, unless that fails, of the
others. -/
theorem run_cons_of_ok (hm : m.error = none) {value : Option Value}
    (h : m.execute stmt = (.ok value, later)) (rest : List Node) :
    m.run (stmt :: rest) =
      ((later.run rest).1.map (·.or (if hasValue stmt then value else none)),
        (later.run rest).2) := by
  simp only [run, runFrom, halted_eq_false m hm, Bool.false_eq_true, if_false, h]
  exact runFrom_eq_run (error_eq_none_of_execute hm h) _ rest

/-- Statements after others run from the last value of those, unless one of
those fails. -/
theorem runFrom_append (hm : m.error = none) (last : Option Value) (stmts stmts' : List Node) :
    m.runFrom last (stmts ++ stmts') = match m.runFrom last stmts with
      | (.ok value, later) => later.runFrom value stmts'
      | (.error failure, later) => (.error failure, later) := by
  induction stmts generalizing m last with
  | nil => rfl
  | cons stmt rest ih =>
    simp only [List.cons_append, runFrom, halted_eq_false m hm, Bool.false_eq_true, if_false]
    rcases hexec : m.execute stmt with ⟨failure | value, later⟩
    · rfl
    · exact ih (error_eq_none_of_execute hm hexec) _

/-- **A run of two lists** is a run of the first and then of the second,
unless the first fails. -/
theorem run_append (hm : m.error = none) (stmts stmts' : List Node) :
    m.run (stmts ++ stmts') = match m.run stmts with
      | (.ok value, later) => ((later.run stmts').1.map (·.or value), (later.run stmts').2)
      | (.error failure, later) => (.error failure, later) := by
  rw [run, runFrom_append hm, ← run]
  rcases hrun : m.run stmts with ⟨failure | value, later⟩
  · rfl
  · exact runFrom_eq_run (error_eq_none_of_run hm hrun) value stmts'

/-! ## What is printed -/

/-- Nothing is printed from a state to itself. -/
theorem printedSince_self (m : Interpreter) : m.printedSince m = "" := by
  rw [printedSince, ← Array.length_toList, List.drop_length]
  rfl

/-- What is printed from one state to a third is printed up to a second and
then from there. -/
theorem printedSince_trans {later last : Interpreter}
    (h : m.output.toList <+: later.output.toList)
    (h' : later.output.toList <+: last.output.toList) :
    m.printedSince last = m.printedSince later ++ later.printedSince last := by
  obtain ⟨first, hfirst⟩ := h
  obtain ⟨second, hsecond⟩ := h'
  simp only [printedSince, ← Array.length_toList, ← hsecond, ← hfirst, List.append_assoc,
    List.drop_left]
  rw [← List.append_assoc, List.drop_left]
  simp

/-! ## The value of a run -/

/-- The value of a statement, which only an expression statement has. -/
def valueOf (scope : Keyed Name Value) : Stmt → Option Value
  | .expr e => (e.outcome scope).toOption
  | .print _ | .var _ _ => none

/-- The value of the last expression statement, where the statements before
it have been executed. -/
def lastValue (m : Interpreter) : List Stmt → Option Value
  | [] => none
  | s :: rest => ((m.execute s.toNode).2.lastValue rest).or (valueOf m.scope s)

/-- An expression that is evaluated has its outcome. -/
theorem evaluate_toNode (hm : m.error = none) (e : Expr) :
    (m.evaluate e.toNode).1 = e.outcome m.scope := by
  rw [evaluate_eq_settle hm, settle, Expr.outcome]
  split
  · next houtcome => exact houtcome.symm
  · rfl

/-- A statement of a program is carried out where it has been noted, which
changes neither the names nor what is printed. -/
theorem exists_noted (hm : m.error = none) (s : Stmt) :
    ∃ noted : Interpreter, noted.error = none ∧ noted.scope = m.scope ∧
      noted.output = m.output ∧ m.execute s.toNode = noted.perform s.toNode := by
  rw [execute, halted_eq_false m hm, noteStmt_toNode]
  refine ⟨_, ?_, ?_, ?_, rfl⟩ <;> split <;> simp [hm]

/-- An executed statement has its value. -/
theorem execute_value (hm : m.error = none) {s : Stmt} {value : Option Value}
    {later : Interpreter} (h : m.execute s.toNode = (.ok value, later)) :
    value = valueOf m.scope s := by
  obtain ⟨noted, herror, hscope, -, hperform⟩ := exists_noted hm s
  rw [hperform] at h
  cases s with
  | expr e =>
    have hvalue : (noted.evaluate e.toNode).1.map some = .ok value := (Prod.mk.inj h).1
    obtain ⟨v, hv, rfl⟩ := eq_ok_of_map hvalue
    rw [evaluate_toNode herror, hscope] at hv
    rw [valueOf, hv]
    rfl
  | print e =>
    simp only [Stmt.toNode, perform] at h
    split at h <;> cases h
    rfl
  | var name e =>
    simp only [Stmt.toNode, perform] at h
    split at h
    · obtain ⟨-, -, rfl⟩ := eq_ok_of_map (Prod.mk.inj h).1
      rfl
    · cases h

/-- **A run has the value of its last expression statement.** -/
theorem run_value (hm : m.error = none) {ss : List Stmt} {value : Option Value}
    {later : Interpreter} (h : m.run (ss.map Stmt.toNode) = (.ok value, later)) :
    value = m.lastValue ss := by
  induction ss generalizing m value with
  | nil => exact (Except.ok.inj (Prod.mk.inj h).1).symm
  | cons s rest ih =>
    rw [List.map_cons] at h
    rcases hexec : m.execute s.toNode with ⟨failure | first, next⟩
    · rw [run_cons_of_error hm hexec] at h
      cases h
    · rw [run_cons_of_ok hm hexec] at h
      obtain ⟨hvalue, rfl⟩ := Prod.mk.inj h
      obtain ⟨more, hmore, rfl⟩ := eq_ok_of_map hvalue
      rw [lastValue, hexec, ← ih (error_eq_none_of_execute hm hexec) (Prod.ext hmore rfl),
        execute_value hm hexec]
      cases s <;> rfl

/-! ## Transcripts -/

/-- What each part of a program prints, and the value of its last expression
statement, where the parts are run one after another. -/
def transcript (m : Interpreter) : List (List Stmt) → List (String × Option Value)
  | [] => []
  | part :: rest =>
    let later := (m.run (part.map Stmt.toNode)).2
    (m.printedSince later, m.lastValue part) :: later.transcript rest

end Lox.Interpreter
