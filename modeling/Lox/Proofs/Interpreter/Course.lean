import Lox.Proofs.Interpreter.Atomic
/-!
# The course of a run

A run of a program executes some of its statements, from the first on, and is
where those lead (`Course`): unless they are all, the next one fails, and it
leaves no effect of its own. What each of them does is what its expression has
for a value: a declaration binds it, and a print statement prints it
(`executed`).
-/

namespace Lox

open Document

/-- The names after a statement whose expression has the given value. -/
def Stmt.bind (value : Value) (scope : Keyed Name Value) : Stmt → Keyed Name Value
  | .var name _ => scope.set (.text name) value
  | .expr _ | .print _ => scope

/-- The lines that a statement prints whose expression has the given value. -/
def Stmt.lines (value : Value) : Stmt → List String
  | .print _ => [value.debug]
  | .expr _ | .var _ _ => []

namespace Interpreter

variable {m later : Interpreter} {s : Stmt}

/-! ## One statement -/

/-- A name that is text can be declared, and an atom is bound to it as it is. -/
theorem declare_text (m : Interpreter) (name : String) (v : Value) :
    ∃ later, m.declare (.str name) v = (.ok (), later) ∧ later.output = m.output ∧
      (v.IsAtom → later.scope = m.scope.set (.text name) v) := by
  rcases m.declare_cases (.str name) v with hnone | ⟨name', v', later, hdeclare, -, houtput⟩
  · cases (Prod.mk.inj hnone).1
  · refine ⟨later, hdeclare, houtput, ?_⟩
    rintro ⟨a, rfl⟩
    obtain ⟨-, rfl⟩ := Prod.mk.inj hdeclare
    rw [apply_ite scope, note_scope, ite_self]
    rfl

/-- A statement fails with its expression. -/
theorem perform_of_error {failure : Failure}
    (h : m.evaluate s.value.toNode = (.error failure, later)) :
    m.perform s.toNode = (.error failure, later) := by
  cases s <;> rw [Stmt.value] at h <;> rw [Stmt.toNode, perform, h]
  rfl

/-- Otherwise it binds or prints the value. -/
theorem perform_of_ok {v : Value} {next : Interpreter}
    (h : m.evaluate s.value.toNode = (.ok v, next)) :
    ∃ value later, m.perform s.toNode = (.ok value, later) ∧
      (v.IsAtom → later.scope = s.bind v next.scope) ∧
      later.output.toList = next.output.toList ++ s.lines v := by
  cases s with
  | expr e =>
    rw [Stmt.value] at h
    rw [Stmt.toNode, perform, h]
    exact ⟨_, _, rfl, fun _ => rfl, (List.append_nil _).symm⟩
  | print e =>
    rw [Stmt.value] at h
    rw [Stmt.toNode, perform, h]
    exact ⟨_, _, rfl, fun _ => rfl, Array.toList_push⟩
  | var name e =>
    obtain ⟨later, hdeclare, houtput, hscope⟩ := next.declare_text name v
    rw [Stmt.value] at h
    rw [Stmt.toNode, perform, h]
    simp only [hdeclare]
    exact ⟨_, later, rfl, hscope, by rw [houtput, Stmt.lines, List.append_nil]⟩

/-- **A statement that is executed** has a value for its expression, binds it if
it is a declaration, and prints it if it is a print statement. -/
theorem executed (hm : m.error = none) {value : Option Value}
    (h : m.execute s.toNode = (.ok value, later)) :
    ∃ v, s.value.outcome m.scope = .ok v ∧ (v.IsAtom → later.scope = s.bind v m.scope) ∧
      later.output.toList = m.output.toList ++ s.lines v := by
  -- Noting the statement touches the trace alone, and evaluation neither names nor output.
  obtain ⟨noted, herror, hscope, houtput, hperform⟩ := exists_noted hm s
  have hvalue := evaluate_toNode herror s.value
  obtain ⟨hscope', houtput'⟩ := noted.evaluate_keeps s.value.toNode
  rw [hscope] at hvalue hscope'
  rw [houtput] at houtput'
  rcases heval : noted.evaluate s.value.toNode with ⟨failure | v, next⟩ <;>
    simp only [heval] at hvalue hscope' houtput'
  · rw [hperform, perform_of_error heval] at h
    cases h
  · obtain ⟨value', later', hdone, hbind, hlines⟩ := perform_of_ok heval
    obtain ⟨-, rfl⟩ := Prod.mk.inj (h.symm.trans (hperform.trans hdone))
    rw [hscope'] at hbind
    rw [houtput'] at hlines
    exact ⟨v, hvalue.symm, hbind, hlines⟩

/-- **A statement that fails** is one whose expression does. -/
theorem outcome_of_execute_error (hm : m.error = none) {failure : Failure}
    (h : m.execute s.toNode = (.error failure, later)) :
    s.value.outcome m.scope = .error failure := by
  obtain ⟨noted, herror, hscope, -, hperform⟩ := exists_noted hm s
  have hvalue := evaluate_toNode herror s.value
  rw [hscope] at hvalue
  rcases heval : noted.evaluate s.value.toNode with ⟨failure' | v, next⟩ <;>
    simp only [heval] at hvalue
  · obtain ⟨⟨⟩, -⟩ := Prod.mk.inj (h.symm.trans (hperform.trans (perform_of_error heval)))
    exact hvalue.symm
  · obtain ⟨value, later', hdone, -, -⟩ := perform_of_ok heval
    cases (Prod.mk.inj (h.symm.trans (hperform.trans hdone))).1

/-! ## Statement after statement -/

/-- **The course of a run**: the statements that it executes, and the state that
they reach. If they are not all, the next one fails and ends the run. -/
structure Course (m : Interpreter) (ss done : List Stmt) (reached : Interpreter) : Prop where
  reaches : ∃ value, m.run (done.map Stmt.toNode) = (.ok value, reached)
  scope : (m.run (ss.map Stmt.toNode)).2.scope = reached.scope
  output : (m.run (ss.map Stmt.toNode)).2.output = reached.output
  ends : (ss = done ∧ ∃ value, (m.run (ss.map Stmt.toNode)).1 = .ok value) ∨
    ∃ s rest failure, ss = done ++ s :: rest ∧
      (m.run (ss.map Stmt.toNode)).1 = .error failure ∧
      s.value.outcome reached.scope = .error failure

/-- **Every run of a program takes a course.** -/
theorem exists_course (hm : m.error = none) (ss : List Stmt) :
    ∃ done reached, m.Course ss done reached := by
  rcases hrun : m.run (ss.map Stmt.toNode) with ⟨failure | value, later⟩
  · obtain ⟨nodes, node, after, value, reached, hnodes, hreach, hstmt⟩ :=
      (run_eq_error_iff hm).1 hrun
    -- The nodes around the one that fails are those of statements of the program.
    obtain ⟨done, s, rest, rfl, rfl, rfl⟩ := exists_append_of_map hnodes
    have hreached := error_eq_none_of_run hm hreach
    obtain ⟨hscope, houtput⟩ := execute_keeps_of_error hstmt
    refine ⟨done, reached, ⟨value, hreach⟩, by rw [hrun, hscope], by rw [hrun, houtput], .inr ?_⟩
    exact ⟨s, rest, failure, rfl, by rw [hrun], outcome_of_execute_error hreached hstmt⟩
  · exact ⟨ss, later, ⟨value, hrun⟩, by rw [hrun], by rw [hrun], .inl ⟨rfl, value, by rw [hrun]⟩⟩

/-- What has been run has been run up to any point before. -/
theorem run_ok_of_append (hm : m.error = none) {before after : List Node} {value : Option Value}
    (h : m.run (before ++ after) = (.ok value, later)) :
    ∃ own reached rest, m.run before = (.ok own, reached) ∧
      reached.run after = (.ok rest, later) := by
  rw [run_append hm] at h
  rcases hbefore : m.run before with ⟨failure | own, reached⟩ <;> rw [hbefore] at h
  · cases h
  · obtain ⟨hafter, rfl⟩ := Prod.mk.inj h
    obtain ⟨rest, hrest, -⟩ := eq_ok_of_map hafter
    exact ⟨own, reached, rest, rfl, Prod.ext hrest rfl⟩

/-- A run of one more statement ends with its execution. -/
theorem run_concat_ok (hm : m.error = none) {done : List Stmt} {value : Option Value}
    (h : m.run ((done ++ [s]).map Stmt.toNode) = (.ok value, later)) :
    ∃ own reached last, m.run (done.map Stmt.toNode) = (.ok own, reached) ∧
      reached.error = none ∧ reached.execute s.toNode = (.ok last, later) := by
  rw [List.map_append] at h
  obtain ⟨own, reached, rest, hdone, hlast⟩ := run_ok_of_append hm h
  have hreached := error_eq_none_of_run hm hdone
  rw [List.map_singleton] at hlast
  rcases hexec : reached.execute s.toNode with ⟨failure | last, next⟩
  · rw [run_cons_of_error hreached hexec] at hlast
    cases hlast
  · rw [run_cons_of_ok hreached hexec] at hlast
    obtain ⟨-, rfl⟩ := Prod.mk.inj hlast
    exact ⟨own, reached, last, hdone, hreached, hexec⟩

end Interpreter

end Lox
