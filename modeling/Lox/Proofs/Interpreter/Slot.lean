import Lox.Interpreter.Call
import Mathlib
/-!
# The error slot

The error slot as a state machine. A call on an interpreter that is not
halted raises a runtime error exactly if it fills the slot with that error
(`Raises`); on a halted interpreter only a reset does anything to the slot,
and only a definition anything to the names. `sticky_call` is the law of
one call, and `sticky_session` that of a session of any length.
-/

namespace Lox

open Document

namespace Call

/-- The trees of a call are what the printer of trees can print. -/
def Printable : Call → Prop
  | run stmts => ∀ stmt ∈ stmts, ∃ text, stmt.renderStmt = .ok text
  | execute stmt => ∃ text, stmt.renderStmt = .ok text
  | evaluate expr => ∃ text, expr.renderExpr = .ok text
  | _ => True

/-- The answer of a call that does nothing. -/
def idle : Call → Answer
  | evaluate _ => .ok (some (.atom .nil))
  | _ => .ok none

/-- What a call defines by itself, and not by running statements. -/
def defineIn (scope : Keyed Name Value) : Call → Keyed Name Value
  | define name value => scope.set name value
  | _ => scope

end Call

namespace Interpreter

/-! ## What leaves the slot alone -/

section Frame

variable (m : Interpreter)

@[simp]
theorem note_error (message : Message) : (m.note message).error = m.error := by
  unfold note
  split <;> rfl

@[simp]
theorem note_scope (message : Message) : (m.note message).scope = m.scope := by
  unfold note
  split <;> rfl

@[simp]
theorem note_output (message : Message) : (m.note message).output = m.output := by
  unfold note
  split <;> rfl

/-- What messages leave alone, tracing operations leaves alone. -/
theorem noteOperations_keeps {α : Type} {part : Interpreter → α}
    (h : ∀ m message, part (note message m) = part m) (operations : List Operation) :
    part (m.noteOperations operations) = part m := by
  have hfold : ∀ (os : List Operation) (m : Interpreter),
      part (os.foldl (fun m o => m.note (.operated o)) m) = part m := by
    intro os
    induction os with
    | nil => exact fun _ => rfl
    | cons o rest ih => exact fun m => (ih _).trans (h m _)
  unfold noteOperations
  split
  · exact hfold operations m
  · rfl

@[simp]
theorem noteOperations_error (operations : List Operation) :
    (m.noteOperations operations).error = m.error :=
  m.noteOperations_keeps note_error operations

@[simp]
theorem halt_error (e : RuntimeError) : (m.halt e).error = some e :=
  rfl

@[simp]
theorem mark_error (value : Value) : (m.mark value).2.error = m.error := by
  unfold mark
  split <;> rfl

/-- An interpreter is halted while its slot is filled. -/
theorem halted_iff : m.halted = true ↔ ∃ e, m.error = some e :=
  Option.isSome_iff_exists

theorem halted_eq_false (h : m.error = none) : m.halted = false := by
  rw [halted, h]
  rfl

end Frame

/-! ## Calls on an interpreter that is not halted -/

/-- Raising an error and filling the slot with it are the same. -/
def Raises {α : Type} (result : Except Failure α) (next : Interpreter) : Prop :=
  ∀ e, result = .error (.error e) ↔ next.error = some e

/-- A result that is no runtime error goes with an empty slot. -/
theorem raises_of_error_eq_none {α : Type} {result : Except Failure α} {next : Interpreter}
    (hresult : ∀ e, result ≠ .error (.error e)) (hnext : next.error = none) :
    Raises result next := by
  intro e
  rw [hnext]
  exact ⟨fun h => absurd h (hresult e), fun h => by cases h⟩

/-- An interpreter that raised nothing is not halted. -/
theorem Raises.error_eq_none {α : Type} {value : α} {next : Interpreter}
    (h : Raises (.ok value) next) : next.error = none := by
  rcases herror : next.error with _ | e
  · rfl
  · exact nomatch (h e).2 herror

/-- What is raised does not depend on the value of a result. -/
theorem Raises.map {α β : Type} {result : Except Failure α} {next : Interpreter}
    (h : Raises result next) (f : α → β) : Raises (result.map f) next := by
  intro e
  rw [← h e]
  cases result <;> simp [Except.map]

/-- A failure is raised as a failure of any type. -/
theorem Raises.failure {α β : Type} {failure : Failure} {next : Interpreter}
    (h : Raises (.error failure : Except Failure α) next) :
    Raises (.error failure : Except Failure β) next := by
  intro e
  rw [← h e]
  simp

/-- An expression raises what fills the slot. -/
theorem raises_evaluate {m : Interpreter} (hm : m.error = none) (expr : Node) :
    Raises (m.evaluate expr).1 (m.evaluate expr).2 := by
  simp only [evaluate, halted_eq_false m hm, Bool.false_eq_true, if_false]
  split
  · exact raises_of_error_eq_none (by simp) (by simpa using hm)
  · intro e
    simp
  · exact raises_of_error_eq_none (by simp) (by simpa using hm)

/-- A definition raises nothing. -/
theorem raises_declare {m : Interpreter} (hm : m.error = none) (name : Json) (value : Value) :
    Raises (m.declare name value).1 (m.declare name value).2 := by
  unfold declare
  split
  · exact raises_of_error_eq_none (by simp) hm
  · next name hname =>
    refine raises_of_error_eq_none (by simp) ?_
    dsimp only
    split <;> simpa [define] using hm

/-- A message about a statement changes the trace alone, and it fails only
for a statement that cannot be printed. -/
theorem noteStmt_spec (m : Interpreter) (message : String → Message) (stmt : Node) :
    (m.noteStmt message stmt).2.error = m.error ∧ (m.noteStmt message stmt).2.scope = m.scope ∧
      (m.noteStmt message stmt).2.output = m.output ∧
      (∀ e, (m.noteStmt message stmt).1 ≠ .error (.error e)) ∧
      ((∃ text, stmt.renderStmt = .ok text) → (m.noteStmt message stmt).1 = .ok ()) := by
  unfold noteStmt
  split
  · rcases hrender : stmt.renderStmt with misfit | text
    · simp
    · simp
  · simp

/-- A statement raises what fills the slot. -/
theorem raises_perform {m : Interpreter} (hm : m.error = none) (stmt : Node) :
    Raises (m.perform stmt).1 (m.perform stmt).2 := by
  unfold perform
  split
  · next expr => exact (raises_evaluate hm expr).map some
  · next expr =>
    have h := raises_evaluate hm expr
    rcases heval : m.evaluate expr with ⟨failure | value, next⟩ <;> rw [heval] at h
    · exact h.failure
    · exact raises_of_error_eq_none (by simp) h.error_eq_none
  · next name initializer =>
    have h := raises_evaluate hm initializer
    rcases heval : m.evaluate initializer with ⟨failure | value, next⟩ <;> rw [heval] at h
    · exact h.failure
    · exact (raises_declare h.error_eq_none name value).map _
  · exact raises_of_error_eq_none (by simp) hm

/-- So does its execution. -/
theorem raises_execute {m : Interpreter} (hm : m.error = none) (stmt : Node) :
    Raises (m.execute stmt).1 (m.execute stmt).2 := by
  obtain ⟨herror, -, -, hraise, -⟩ := m.noteStmt_spec .executing stmt
  rw [execute, halted_eq_false m hm]
  rcases hnote : m.noteStmt .executing stmt with ⟨failure | ⟨⟩, next⟩ <;>
    rw [hnote] at herror hraise
  · exact raises_of_error_eq_none (fun e he => hraise e (by simpa using he)) (herror.trans hm)
  · exact raises_perform (herror.trans hm) stmt

/-- **A run raises what fills the slot**, in whichever of its statements. -/
theorem raises_runFrom {m : Interpreter} (hm : m.error = none) (last : Option Value)
    (stmts : List Node) : Raises (m.runFrom last stmts).1 (m.runFrom last stmts).2 := by
  induction stmts generalizing m last with
  | nil => exact raises_of_error_eq_none (by simp [runFrom]) hm
  | cons stmt rest ih =>
    have h := raises_execute hm stmt
    rw [runFrom, halted_eq_false m hm]
    rcases hexec : m.execute stmt with ⟨failure | value, next⟩ <;> rw [hexec] at h
    · exact h.failure
    · exact ih h.error_eq_none _

/-! ## The law of a call -/

/-- **The slot as a state machine**: what one call does to the slot, and
what a filled slot makes of it. -/
structure Sticky (m : Interpreter) (c : Call) (answer : Answer) (next : Interpreter) : Prop where
  /-- The slot is filled only by a call that raises the error. -/
  raised : m.error = none → ∀ e, next.error = some e → answer = .error (.error e)
  /-- A call that raises an error fills an empty slot with it. -/
  fills : ∀ e, answer = .error (.error e) → m.error = none ∧ next.error = some e
  /-- A filled slot is emptied by a reset, and by nothing else. -/
  keeps : ∀ e, m.error = some e →
    c = .reset ∧ next.error = none ∨ c ≠ .reset ∧ next.error = some e
  /-- While the slot is filled a call has its idle answer. -/
  idles : m.halted = true → c.Printable → answer = c.idle
  /-- And it prints nothing. -/
  silent : m.halted = true → next.output = m.output
  /-- And only a definition changes the names. -/
  frozen : m.halted = true → next.scope = c.defineIn m.scope
  /-- A reset never does. -/
  resets : c = .reset → next.scope = m.scope

/-- The law of a call on an interpreter that is not halted. -/
theorem Raises.sticky {m next : Interpreter} {c : Call} {answer : Answer}
    (h : Raises answer next) (hm : m.error = none)
    (hresets : c = .reset → next.scope = m.scope) : Sticky m c answer next := by
  have hhalted : m.halted ≠ true := by simp [halted_eq_false m hm]
  exact {
    raised := fun _ e he => (h e).2 he
    fills := fun e he => ⟨hm, (h e).1 he⟩
    keeps := fun e he => by simp [hm] at he
    idles := fun hm' => absurd hm' hhalted
    silent := fun hm' => absurd hm' hhalted
    frozen := fun hm' => absurd hm' hhalted
    resets := hresets }

/-- The law of a call on a halted interpreter. -/
theorem sticky_of_halted {m next : Interpreter} {c : Call} {answer : Answer} {e : RuntimeError}
    (hm : m.error = some e)
    (hkeeps : c = .reset ∧ next.error = none ∨ c ≠ .reset ∧ next.error = some e)
    (hraise : ∀ e', answer ≠ .error (.error e')) (hidles : c.Printable → answer = c.idle)
    (hsilent : next.output = m.output) (hfrozen : next.scope = c.defineIn m.scope) :
    Sticky m c answer next where
  raised hnone := by simp [hm] at hnone
  fills e' he := absurd he (hraise e')
  keeps e' he := by
    obtain rfl : e = e' := Option.some.inj (hm.symm.trans he)
    exact hkeeps
  idles _ := hidles
  silent _ := hsilent
  frozen _ := hfrozen
  resets := by
    rintro rfl
    exact hfrozen

/-- A halted interpreter skips a run, and tells the trace so. -/
theorem runFrom_of_halted {m : Interpreter} (hm : m.halted = true) (last : Option Value)
    (stmts : List Node) :
    (m.runFrom last stmts).2.error = m.error ∧ (m.runFrom last stmts).2.scope = m.scope ∧
      (m.runFrom last stmts).2.output = m.output ∧
      (∀ e, (m.runFrom last stmts).1 ≠ .error (.error e)) ∧
      ((Call.run stmts).Printable → (m.runFrom last stmts).1 = .ok last) := by
  cases stmts with
  | nil => simp [runFrom]
  | cons stmt rest =>
    have hspec := m.noteStmt_spec .skipping stmt
    rw [runFrom, if_pos hm]
    rcases hnote : m.noteStmt .skipping stmt with ⟨failure | ⟨⟩, next⟩ <;> rw [hnote] at hspec
    · obtain ⟨herror, hscope, houtput, hraise, hok⟩ := hspec
      refine ⟨herror, hscope, houtput, fun e he => hraise e (by simpa [Except.map] using he), ?_⟩
      exact fun hprint => absurd (hok (hprint stmt List.mem_cons_self)) (by simp)
    · obtain ⟨herror, hscope, houtput, -⟩ := hspec
      refine ⟨herror, hscope, houtput, fun e he => ?_, fun _ => rfl⟩
      cases he

/-- **The law of a call**, whatever the state that it meets. -/
theorem sticky_call (m : Interpreter) (c : Call) : Sticky m c (m.call c).1 (m.call c).2 := by
  rcases herror : m.error with _ | e
  · -- Not halted: raising an error and filling the slot are the same.
    cases c with
    | run stmts => exact (raises_runFrom herror none stmts).sticky herror (by simp)
    | execute stmt => exact (raises_execute herror stmt).sticky herror (by simp)
    | evaluate expr => exact ((raises_evaluate herror expr).map some).sticky herror (by simp)
    | reset =>
      have hreset : m.reset = m := by rw [reset, herror]
      refine (raises_of_error_eq_none (by simp [call]) ?_).sticky herror fun _ => ?_
      · exact (congrArg error hreset).trans herror
      · exact congrArg scope hreset
    | define name value =>
      exact Raises.sticky (raises_of_error_eq_none (by simp [call]) herror) herror (by simp)
    | remark text =>
      refine (raises_of_error_eq_none (by simp [call]) ?_).sticky herror (by simp)
      exact (note_error m _).trans herror
    | close =>
      exact Raises.sticky (raises_of_error_eq_none (by simp [call]) herror) herror (by simp)
  · -- Halted: the call does nothing, or what it does is not to the slot.
    have hm : m.halted = true := m.halted_iff.2 ⟨e, herror⟩
    cases c with
    | run stmts =>
      obtain ⟨hslot, hscope, houtput, hraise, hok⟩ := runFrom_of_halted hm none stmts
      exact sticky_of_halted herror (.inr ⟨by simp, hslot.trans herror⟩) hraise hok houtput hscope
    | execute stmt =>
      have hcall : m.call (.execute stmt) = (.ok none, m) := if_pos hm
      rw [hcall]
      exact sticky_of_halted herror (.inr ⟨by simp, herror⟩) (by simp) (fun _ => rfl) rfl rfl
    | evaluate expr =>
      have hcall : m.call (.evaluate expr) = (.ok (some (.atom .nil)), m) := by
        rw [call, evaluate, if_pos hm]
        rfl
      rw [hcall]
      exact sticky_of_halted herror (.inr ⟨by simp, herror⟩) (by simp) (fun _ => rfl) rfl rfl
    | reset =>
      have hreset : m.reset = { m.note (.cleared e) with error := none } := by rw [reset, herror]
      refine sticky_of_halted herror (.inl ⟨rfl, ?_⟩) (by simp [call]) (fun _ => rfl) ?_ ?_
      · exact congrArg error hreset
      · exact (congrArg output hreset).trans (note_output m _)
      · exact (congrArg scope hreset).trans (note_scope m _)
    | define name value =>
      exact sticky_of_halted herror (.inr ⟨by simp, herror⟩) (by simp [call]) (fun _ => rfl) rfl rfl
    | remark text =>
      exact sticky_of_halted herror (.inr ⟨by simp, (note_error m _).trans herror⟩)
        (by simp [call]) (fun _ => rfl) (note_output m _) (note_scope m _)
    | close =>
      exact sticky_of_halted herror (.inr ⟨by simp, herror⟩) (by simp [call]) (fun _ => rfl) rfl rfl

/-! ## The law of a session -/

/-- The state after calls. -/
def after (m : Interpreter) (calls : List Call) : Interpreter :=
  calls.foldl (fun m c => (m.call c).2) m

/-- A session goes on where another one has ended. -/
theorem session_append (m : Interpreter) (before later : List Call) :
    m.session (before ++ later) = m.session before ++ (m.after before).session later := by
  induction before generalizing m with
  | nil => rfl
  | cons c rest ih => exact congrArg (m.call c :: ·) (ih _)

/-- **A filled slot stays as it is** until it is reset, while nothing is
printed and nothing but definitions changes the names. -/
theorem after_of_error {m : Interpreter} {e : RuntimeError} (hm : m.error = some e)
    {calls : List Call} (hcalls : Call.reset ∉ calls) :
    (m.after calls).error = some e ∧ (m.after calls).output = m.output ∧
      (m.after calls).scope = calls.foldl Call.defineIn m.scope := by
  induction calls generalizing m with
  | nil => exact ⟨hm, rfl, rfl⟩
  | cons c rest ih =>
    obtain ⟨hc, hrest⟩ : Call.reset ≠ c ∧ Call.reset ∉ rest := by simpa using hcalls
    have hlaw := sticky_call m c
    have hhalted : m.halted = true := m.halted_iff.2 ⟨e, hm⟩
    have hnext : (m.call c).2.error = some e := by
      rcases hlaw.keeps e hm with ⟨heq, -⟩ | ⟨-, hnext⟩
      · exact absurd heq.symm hc
      · exact hnext
    obtain ⟨herror, houtput, hscope⟩ := ih hnext hrest
    refine ⟨herror, houtput.trans (hlaw.silent hhalted), ?_⟩
    rw [List.foldl_cons, ← hlaw.frozen hhalted]
    exact hscope

/-- **The slot in a session**, of any length and at any level: every call of
it keeps to the law, and an error that a call leaves in the slot stays
there until a reset. -/
theorem sticky_session (level : Nat) (before later : List Call) (c : Call) :
    let m := (new level).after before
    let next := (m.call c).2
    (new level).session (before ++ c :: later)
        = (new level).session before ++ m.call c :: next.session later ∧
      Sticky m c (m.call c).1 next ∧
      ∀ e, next.error = some e → Call.reset ∉ later →
        (next.after later).error = some e ∧ (next.after later).output = next.output ∧
          (next.after later).scope = later.foldl Call.defineIn next.scope := by
  intro m next
  exact ⟨session_append _ before (c :: later), sticky_call m c, fun e he => after_of_error he⟩

/-- An undefined name stays in the slot, although it is defined later. -/
theorem sticky_undefined_name :
    let next := ((new 3).call (.evaluate (.var (.str "x")))).2
    let later : List Call := [.define (.text "x") (.atom .nil), .evaluate (.var (.str "x"))]
    (next.after later).error = some (.undefinedVariable "x") ∧
      (next.after later).output = #[] ∧
      (next.after later).scope = [(.text "x", .atom .nil)] := by
  intro next later
  have hkept := (sticky_session 3 [] later (.evaluate (.var (.str "x")))).2.2
  exact hkept (.undefinedVariable "x") rfl (by simp [later])

end Interpreter

end Lox
