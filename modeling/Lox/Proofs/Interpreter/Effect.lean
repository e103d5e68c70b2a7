import Lox.Proofs.Interpreter.Nested
/-!
# What a statement does

A statement that fails prints nothing and defines nothing; one that does not
fail prints at most one line or defines at most one name
(`effect_execute`). So a run prints after what has been printed and defines
names beside those that are defined (`grows_runFrom`), whatever it comes to.
-/

namespace Lox.Interpreter

open Document

/-! ## One statement -/

/-- **What a statement does** besides its trace: nothing, one line that is
printed or one name that is defined, and nothing if it fails. -/
inductive Effect (m : Interpreter) : Except Failure (Option Value) × Interpreter → Prop
  | none {result : Except Failure (Option Value)} {later : Interpreter}
      (scope : later.scope = m.scope) (output : later.output = m.output) : m.Effect (result, later)
  | printed {line : String} {later : Interpreter} (scope : later.scope = m.scope)
      (output : later.output = m.output.push line) : m.Effect (.ok .none, later)
  | defined {name : Name} {value : Value} {later : Interpreter}
      (scope : later.scope = m.scope.set name value) (output : later.output = m.output) :
      m.Effect (.ok .none, later)

/-- What has an effect from one state has it from another with the same names
and output. -/
theorem Effect.congr {m n : Interpreter} {attempt : Except Failure (Option Value) × Interpreter}
    (h : n.Effect attempt) (hscope : n.scope = m.scope) (houtput : n.output = m.output) :
    m.Effect attempt := by
  cases h with
  | none scope output => exact .none (scope.trans hscope) (output.trans houtput)
  | printed scope output => exact .printed (scope.trans hscope) (houtput ▸ output)
  | defined scope output => exact .defined (hscope ▸ scope) (output.trans houtput)

/-- **What fails has no effect.** -/
theorem Effect.keeps_of_error {m later : Interpreter} {failure : Failure}
    (h : m.Effect (.error failure, later)) : later.scope = m.scope ∧ later.output = m.output := by
  cases h with
  | none scope output => exact ⟨scope, output⟩

/-- An expression defines and prints nothing. -/
theorem evaluate_keeps (m : Interpreter) (expr : Node) :
    (m.evaluate expr).2.scope = m.scope ∧ (m.evaluate expr).2.output = m.output := by
  have houtput (operations : List Operation) : (m.noteOperations operations).output = m.output :=
    m.noteOperations_keeps note_output operations
  unfold evaluate
  split
  · exact ⟨rfl, rfl⟩
  · dsimp only
    split <;> simp [houtput, halt]

/-- A declaration defines one name, unless that is none. -/
theorem declare_cases (m : Interpreter) (name : Json) (value : Value) :
    m.declare name value = (.error (.misfit .notName), m) ∨
      ∃ name' value' later, m.declare name value = (.ok (), later) ∧
        later.scope = m.scope.set name' value' ∧ later.output = m.output := by
  have hmark : (m.mark value).2.scope = m.scope ∧ (m.mark value).2.output = m.output := by
    unfold mark
    split <;> exact ⟨rfl, rfl⟩
  rcases hmarked : m.mark value with ⟨value', marked⟩
  obtain ⟨hscope, houtput⟩ : marked.scope = m.scope ∧ marked.output = m.output := by
    simpa only [hmarked] using hmark
  simp only [declare, hmarked]
  split
  · exact .inl rfl
  · next name' _ =>
    refine .inr ⟨name', value', _, rfl, ?_⟩
    split <;> simp [define, hscope, houtput]

/-- A statement that is carried out has one effect at most. -/
theorem effect_perform (m : Interpreter) (stmt : Node) : m.Effect (m.perform stmt) := by
  unfold perform
  split
  · next expr =>
    obtain ⟨hscope, houtput⟩ := m.evaluate_keeps expr
    exact .none hscope houtput
  · next expr =>
    obtain ⟨hscope, houtput⟩ := m.evaluate_keeps expr
    rcases hvalue : m.evaluate expr with ⟨failure | value, later⟩ <;>
      rw [hvalue] at hscope houtput
    · exact .none hscope houtput
    · exact .printed hscope (congrArg (·.push value.debug) houtput)
  · next name initializer =>
    obtain ⟨hscope, houtput⟩ := m.evaluate_keeps initializer
    rcases hvalue : m.evaluate initializer with ⟨failure | value, later⟩ <;>
      rw [hvalue] at hscope houtput
    · exact .none hscope houtput
    · dsimp only
      rcases later.declare_cases name value with
        hdeclare | ⟨name', value', last, hdeclare, hscope', houtput'⟩ <;> rw [hdeclare]
      · exact .none hscope houtput
      · exact (Effect.defined hscope' houtput').congr hscope houtput
  · exact .none rfl rfl

/-- **So has one that is executed.** -/
theorem effect_execute (m : Interpreter) (stmt : Node) : m.Effect (m.execute stmt) := by
  obtain ⟨-, hscope, houtput, -, -⟩ := m.noteStmt_spec .executing stmt
  unfold execute
  split
  · exact .none rfl rfl
  · -- The statement is noted first, which has no effect, even if that fails.
    rcases hnote : m.noteStmt .executing stmt with ⟨failure | ⟨⟩, later⟩ <;>
      rw [hnote] at hscope houtput
    · exact .none hscope houtput
    · exact (later.effect_perform stmt).congr hscope houtput

/-! ## Statement after statement -/

/-- **A state that has grown from another**: more may be printed and more names
defined, and nothing is taken back. -/
structure Grows (m later : Interpreter) : Prop where
  output : m.output.toList <+: later.output.toList
  names : m.scope.keys <+: later.scope.keys

/-- With the same names and output nothing has been taken back. -/
theorem Grows.of_eq {m later : Interpreter} (hscope : later.scope = m.scope)
    (houtput : later.output = m.output) : m.Grows later :=
  ⟨by rw [houtput], by rw [hscope]⟩

/-- Growing and growing again. -/
theorem Grows.trans {m later last : Interpreter} (h : m.Grows later) (h' : later.Grows last) :
    m.Grows last :=
  ⟨h.output.trans h'.output, h.names.trans h'.names⟩

/-- An effect takes nothing back. -/
theorem Effect.grows {m : Interpreter} {attempt : Except Failure (Option Value) × Interpreter}
    (h : m.Effect attempt) : m.Grows attempt.2 := by
  cases h with
  | none scope output => exact .of_eq scope output
  | printed scope output => exact ⟨by simp [output], by rw [scope]⟩
  | @defined name value later scope output =>
    refine ⟨by rw [output], ?_⟩
    rw [scope, Keyed.keys_set]
    split
    · exact List.prefix_rfl
    · exact List.prefix_append _ _

/-- Nor does a run. -/
theorem grows_runFrom (m : Interpreter) (last : Option Value) (stmts : List Node) :
    m.Grows (m.runFrom last stmts).2 := by
  induction stmts generalizing m last with
  | nil => exact .of_eq rfl rfl
  | cons stmt rest ih =>
    rw [runFrom]
    split
    · obtain ⟨-, hscope, houtput, -, -⟩ := m.noteStmt_spec .skipping stmt
      exact .of_eq hscope houtput
    · have hgrows := (m.effect_execute stmt).grows
      rcases hexec : m.execute stmt with ⟨failure | value, later⟩ <;> rw [hexec] at hgrows
      · exact hgrows
      · exact hgrows.trans (ih later _)

/-- **A run takes nothing back**, whatever it comes to. -/
theorem grows_of_run {m : Interpreter} {stmts : List Node}
    {result : Except Failure (Option Value)} {later : Interpreter}
    (h : m.run stmts = (result, later)) : m.Grows later := by
  have hgrows := m.grows_runFrom none stmts
  rwa [show m.runFrom none stmts = _ from h] at hgrows

end Lox.Interpreter
