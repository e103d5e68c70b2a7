import Lox.Proofs.Interpreter.Slot
/-!
# Nested evaluation

Evaluation as the interpreter re-enters it for every part of an expression:
each part is skipped on a halted interpreter, and each handles its own
error and passes it on. An error meets a filled slot on its way through the
enclosing expressions, so the innermost one is the first and only one to
fill it. `nested_eq_evaluate` says that this comes to one evaluation with
one handler around it.
-/

namespace Lox.Interpreter

open Document

/-- An attempt that is not made on a halted interpreter, and whose error
fills the slot unless it is filled. -/
def handling (attempt : Interpreter → Except Failure Value × Interpreter) (m : Interpreter) :
    Except Failure Value × Interpreter :=
  if m.halted then (.ok (.atom .nil), m)
  else match attempt m with
    | (.error (.error e), m) => (.error (.error e), if m.halted then m else m.halt e)
    | (result, m) => (result, m)

/-- Goes on with the value of an attempt, if that has one. -/
def following (attempt : Except Failure Value × Interpreter)
    (next : Value → Interpreter → Except Failure Value × Interpreter) :
    Except Failure Value × Interpreter :=
  match attempt with
  | (.ok value, m) => next value m
  | (.error failure, m) => (.error failure, m)

/-- The value of an expression, every part of which is evaluated by the
interpreter itself. -/
def nested : Node → Interpreter → Except Failure Value × Interpreter
  | .literal value => handling fun m => (.ok (.ofNode value), m)
  | .grouping inner => handling (nested inner)
  | .var name => handling fun m => (lookup m.scope name, m)
  | .unary operator operand => handling fun m =>
    following (nested operand m) fun value m =>
      ((Operator.ofNode operator).bind (·.applyUnary value), m)
  | .binary left operator right => handling fun m =>
    following (nested left m) fun x m =>
      following (nested right m) fun y m =>
        let evaluation := Evaluation.ofOperator operator x y
        (evaluation.outcome, m.noteOperations evaluation.operations)
  | node => handling fun m => (.error (.misfit (.unexpected .evaluate node.partKind)), m)

/-- What an evaluation comes to on an interpreter: its operations are
traced, and its error fills the slot. -/
def settle (m : Interpreter) (evaluation : Evaluation) : Except Failure Value × Interpreter :=
  match evaluation.outcome with
  | .error (.error e) => (.error (.error e), (m.noteOperations evaluation.operations).halt e)
  | outcome => (outcome, m.noteOperations evaluation.operations)

section Operations

variable (m : Interpreter)

@[simp]
theorem note_level (message : Message) : (m.note message).level = m.level := by
  unfold note
  split <;> rfl

@[simp]
theorem noteOperations_scope (operations : List Operation) :
    (m.noteOperations operations).scope = m.scope :=
  m.noteOperations_keeps note_scope operations

@[simp]
theorem noteOperations_level (operations : List Operation) :
    (m.noteOperations operations).level = m.level :=
  m.noteOperations_keeps note_level operations

/-- Operations are traced in order. -/
theorem noteOperations_append (first second : List Operation) :
    m.noteOperations (first ++ second) = (m.noteOperations first).noteOperations second := by
  have hlevel := m.noteOperations_level first
  by_cases h : 3 ≤ m.level
  · simp only [noteOperations, if_pos h, List.foldl_append] at hlevel ⊢
    rw [if_pos (hlevel ▸ h)]
  · simp only [noteOperations, if_neg h]

@[simp]
theorem noteOperations_nil : m.noteOperations [] = m := by
  unfold noteOperations
  split <;> rfl

end Operations

/-- An evaluation that ends in no runtime error is settled as it is. -/
theorem settle_of_ne_error {m : Interpreter} {evaluation : Evaluation}
    (h : ∀ e, evaluation.outcome ≠ .error (.error e)) :
    m.settle evaluation = (evaluation.outcome, m.noteOperations evaluation.operations) := by
  unfold settle
  split
  · next e houtcome => exact absurd houtcome (h e)
  · rfl

/-- One handler around an evaluation settles it. -/
theorem evaluate_eq_settle {m : Interpreter} (hm : m.error = none) (expr : Node) :
    m.evaluate expr = m.settle (Lox.evaluate m.scope expr) := by
  simp only [evaluate, halted_eq_false m hm, Bool.false_eq_true, if_false, settle]
  split <;> simp_all

/-- An attempt comes to an evaluation if it settles it, or has yet to handle
its error. -/
def ComesTo (attempt : Except Failure Value × Interpreter) (m : Interpreter)
    (evaluation : Evaluation) : Prop :=
  attempt = m.settle evaluation ∨
    attempt = (evaluation.outcome, m.noteOperations evaluation.operations)

/-- Handling settles an evaluation, whether or not its error has met a
handler before. -/
theorem handling_eq_settle {m : Interpreter} (hm : m.error = none)
    {attempt : Interpreter → Except Failure Value × Interpreter} {evaluation : Evaluation}
    (h : ComesTo (attempt m) m evaluation) : handling attempt m = m.settle evaluation := by
  have hopen : (m.noteOperations evaluation.operations).halted = false :=
    halted_eq_false _ ((noteOperations_error m _).trans hm)
  rw [handling, halted_eq_false m hm]
  by_cases herror : ∃ e, evaluation.outcome = .error (.error e)
  · obtain ⟨e, houtcome⟩ := herror
    have hsettle : m.settle evaluation
        = (.error (.error e), (m.noteOperations evaluation.operations).halt e) := by
      rw [settle, houtcome]
    rcases h with h | h
    · -- An inner handler has filled the slot, so this one leaves it.
      rw [h, hsettle]
      rfl
    · -- The slot is still empty, and this is the handler that fills it.
      rw [h, hsettle, houtcome]
      simp [hopen]
  · have hne : ∀ e, evaluation.outcome ≠ .error (.error e) := fun e he => herror ⟨e, he⟩
    have hsettle := settle_of_ne_error (m := m) hne
    have h : attempt m = (evaluation.outcome, m.noteOperations evaluation.operations) := by
      rcases h with h | h
      · exact h.trans hsettle
      · exact h
    rw [h, hsettle, if_neg Bool.false_ne_true]
    split
    · next e _ heq => exact absurd (congrArg Prod.fst heq) (hne e)
    · next heq => exact heq.symm

/-- Going on after a settled evaluation comes to both, one after the
other. -/
theorem comesTo_following {m : Interpreter} {first : Evaluation} {second : Value → Evaluation}
    {next : Value → Interpreter → Except Failure Value × Interpreter}
    (h : ∀ value, first.outcome = .ok value →
      ComesTo (next value (m.noteOperations first.operations))
        (m.noteOperations first.operations) (second value)) :
    ComesTo (following (m.settle first) next) m (first.andThen second) := by
  rcases houtcome : first.outcome with (e | misfit) | value
  · have hboth : first.andThen second = ⟨first.operations, .error (.error e)⟩ := by
      rw [Evaluation.andThen, houtcome]
    rw [hboth, settle, houtcome]
    exact .inl rfl
  · have hboth : first.andThen second = ⟨first.operations, .error (.misfit misfit)⟩ := by
      rw [Evaluation.andThen, houtcome]
    rw [hboth, settle, houtcome]
    exact .inl rfl
  · have hboth : first.andThen second
        = ⟨first.operations ++ (second value).operations, (second value).outcome⟩ := by
      rw [Evaluation.andThen, houtcome]
    have hsettle : m.settle first = (.ok value, m.noteOperations first.operations) := by
      rw [settle, houtcome]
    have hnext := h value houtcome
    rw [hboth, hsettle]
    simp only [ComesTo, settle, noteOperations_append] at hnext ⊢
    exact hnext

/-- A part is skipped on a halted interpreter. -/
theorem nested_of_halted {m : Interpreter} (hm : m.halted = true) (expr : Node) :
    nested expr m = (.ok (.atom .nil), m) := by
  cases expr <;> exact if_pos hm

/-- A nested evaluation settles what the expression evaluates to. -/
theorem nested_eq_settle {m : Interpreter} (hm : m.error = none) (expr : Node) :
    nested expr m = m.settle (Lox.evaluate m.scope expr) := by
  induction expr generalizing m with
  | literal value =>
    exact handling_eq_settle hm (.inr (by simp [Lox.evaluate, Evaluation.leaf]))
  | var name => exact handling_eq_settle hm (.inr (by simp [Lox.evaluate, Evaluation.leaf]))
  | grouping inner ih => exact handling_eq_settle hm (.inl (ih hm))
  | unary operator operand _ ih =>
    refine handling_eq_settle hm ?_
    rw [ih hm, Lox.evaluate]
    exact comesTo_following fun value _ => .inr (by simp [Evaluation.leaf])
  | binary left operator right ihl _ ihr =>
    refine handling_eq_settle hm ?_
    rw [ihl hm, Lox.evaluate]
    refine comesTo_following fun x _ => ?_
    -- The left operand has a value, so the right one meets an empty slot and the same names.
    have hopen : (m.noteOperations (Lox.evaluate m.scope left).operations).error = none :=
      (noteOperations_error m _).trans hm
    rw [ihr hopen, noteOperations_scope]
    exact comesTo_following fun y _ => .inr rfl
  | _ => exact handling_eq_settle hm (.inr (by simp [Lox.evaluate, Evaluation.leaf]))

/-- **Nested evaluation is one evaluation**: an error that passes through
enclosing expressions neither overwrites the first one nor loses it. -/
theorem nested_eq_evaluate (expr : Node) (m : Interpreter) : nested expr m = m.evaluate expr := by
  rcases herror : m.error with _ | e
  · rw [nested_eq_settle herror, evaluate_eq_settle herror]
  · have hm : m.halted = true := m.halted_iff.2 ⟨e, herror⟩
    rw [nested_of_halted hm, evaluate, if_pos hm]

end Lox.Interpreter
