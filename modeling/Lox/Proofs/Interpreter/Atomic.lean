import Lox.Proofs.Interpreter.Runs
/-!
# Failing statements are atomic

A run that fails has run the statements before the one that fails, which
then fails without an effect of its own, and has skipped the rest
(`run_eq_error_iff`, `StopsAt`). Together with the law of runs, one after
another, that says what a run of any list comes to in terms of its parts
(`run_composes`).
-/

namespace Lox.Interpreter

open Document

variable {m : Interpreter} {before after : List Node} {stmt : Node} {failure : Failure}
  {later : Interpreter}

/-- A list whose image is cut is cut where the image is. -/
theorem exists_append_of_map {α β : Type} {f : α → β} {l : List α} {before after : List β} {b : β}
    (h : l.map f = before ++ b :: after) :
    ∃ first a rest, l = first ++ a :: rest ∧ first.map f = before ∧ f a = b := by
  obtain ⟨first, more, rfl, hfirst, hmore⟩ := List.map_eq_append_iff.1 h
  obtain ⟨a, rest, rfl, ha, -⟩ := List.map_eq_cons_iff.1 hmore
  exact ⟨first, a, rest, rfl, hfirst, ha⟩

/-- A statement that fails defines nothing and prints nothing. -/
theorem execute_keeps_of_error (h : m.execute stmt = (.error failure, later)) :
    later.scope = m.scope ∧ later.output = m.output :=
  Effect.keeps_of_error (h ▸ m.effect_execute stmt)

/-- **A run fails exactly if one of its statements does** where those before it
have been run. -/
theorem run_eq_error_iff (hm : m.error = none) {stmts : List Node} :
    m.run stmts = (.error failure, later) ↔
      ∃ before stmt after value reached, stmts = before ++ stmt :: after ∧
        m.run before = (.ok value, reached) ∧ reached.execute stmt = (.error failure, later) := by
  constructor
  · intro hrun
    induction stmts generalizing m with
    | nil => cases hrun
    | cons stmt rest ih =>
      rcases hexec : m.execute stmt with ⟨failure' | value, next⟩
      · rw [run_cons_of_error hm hexec] at hrun
        obtain ⟨rfl, rfl⟩ := hrun
        exact ⟨[], stmt, rest, none, m, rfl, rfl, hexec⟩
      · -- The first statement has been run, so it is one of the others that fails.
        rw [run_cons_of_ok hm hexec] at hrun
        obtain ⟨hfails, rfl⟩ := Prod.mk.inj hrun
        obtain ⟨before, stmt', after, own, reached, rfl, hbefore, hstmt⟩ :=
          ih (error_eq_none_of_execute hm hexec) (Prod.ext (eq_error_of_map hfails) rfl)
        refine ⟨stmt :: before, stmt', after, own.or (if hasValue stmt then value else none),
          reached, rfl, ?_, hstmt⟩
        rw [run_cons_of_ok hm hexec, hbefore]
        rfl
  · rintro ⟨before, stmt, after, value, reached, rfl, hbefore, hstmt⟩
    rw [run_append hm, hbefore]
    simp only [run_cons_of_error (error_eq_none_of_run hm hbefore) hstmt after]
    rfl

/-- **A run that stops at a statement**: those before it have been run, it raises
an error without defining or printing anything, and those after it have no
effect, neither in the same run nor in another one before the error is cleared. -/
structure StopsAt (m : Interpreter) (before : List Node) (stmt : Node) (e : RuntimeError)
    (reached later : Interpreter) : Prop where
  reaches : ∃ value, m.run before = (.ok value, reached)
  raises : reached.execute stmt = (.error (.error e), later)
  halted : later.error = some e
  scope : later.scope = reached.scope
  output : later.output = reached.output
  skips : ∀ after, m.run (before ++ stmt :: after) = (.error (.error e), later)
  idles : ∀ after, (later.run after).2.error = some e ∧
    (later.run after).2.scope = later.scope ∧ (later.run after).2.output = later.output

/-- A statement that raises an error stops the run that it is in. -/
theorem stopsAt_of_execute (hm : m.error = none) {e : RuntimeError} {value : Option Value}
    {reached : Interpreter} (hbefore : m.run before = (.ok value, reached))
    (hstmt : reached.execute stmt = (.error (.error e), later)) :
    m.StopsAt before stmt e reached later := by
  have hraises := raises_execute (error_eq_none_of_run hm hbefore) stmt
  rw [hstmt] at hraises
  have hhalted : later.error = some e := (hraises e).1 rfl
  obtain ⟨hscope, houtput⟩ := execute_keeps_of_error hstmt
  refine ⟨⟨value, hbefore⟩, hstmt, hhalted, hscope, houtput, fun after => ?_, fun after => ?_⟩
  · exact (run_eq_error_iff hm).2 ⟨before, stmt, after, value, reached, rfl, hbefore, hstmt⟩
  · obtain ⟨herror, hscope, houtput, -⟩ :=
      runFrom_of_halted (later.halted_iff.2 ⟨e, hhalted⟩) none after
    exact ⟨herror.trans hhalted, hscope, houtput⟩

/-- A run that raises an error stops at one of its statements. -/
theorem exists_stopsAt (hm : m.error = none) {stmts : List Node} {e : RuntimeError}
    (h : m.run stmts = (.error (.error e), later)) :
    ∃ before stmt after reached, stmts = before ++ stmt :: after ∧
      m.StopsAt before stmt e reached later := by
  obtain ⟨before, stmt, after, value, reached, rfl, hbefore, hstmt⟩ := (run_eq_error_iff hm).1 h
  exact ⟨before, stmt, after, reached, rfl, stopsAt_of_execute hm hbefore hstmt⟩

/-- A run has a value exactly if it contains an expression statement. -/
theorem isSome_of_run (hm : m.error = none) {stmts : List Node} {value : Option Value}
    (h : m.run stmts = (.ok value, later)) : value.isSome = stmts.any hasValue := by
  induction stmts generalizing m value with
  | nil =>
    obtain ⟨hvalue, -⟩ := Prod.mk.inj h
    obtain rfl := Except.ok.inj hvalue
    rfl
  | cons stmt rest ih =>
    rcases hexec : m.execute stmt with ⟨failure | own, next⟩
    · rw [run_cons_of_error hm hexec] at h
      cases h
    · rw [run_cons_of_ok hm hexec] at h
      obtain ⟨hvalue, rfl⟩ := Prod.mk.inj h
      obtain ⟨more, hmore, rfl⟩ := eq_ok_of_map hvalue
      rw [Option.isSome_or, ih (error_eq_none_of_execute hm hexec) (Prod.ext hmore rfl),
        List.any_cons, Bool.or_comm]
      by_cases hstmt : hasValue stmt = true
      · rw [if_pos hstmt, isSome_of_hasValue hm hstmt hexec, hstmt]
      · simp [hstmt]

/-- The value of a run, or another one, is its own value if it contains an
expression statement, and the other one if it does not. -/
theorem run_map_or (hm : m.error = none) (stmts : List Node) (value : Option Value) :
    (m.run stmts).1.map (·.or value)
      = (m.run stmts).1.map fun own => if stmts.any hasValue then own else value := by
  rcases hrun : m.run stmts with ⟨failure | own, later⟩
  · rfl
  · rw [← isSome_of_run hm hrun]
    cases own <;> rfl

/-- **Runs compose, and a failing statement is atomic.** A run of two lists is
a run of the first and, unless that fails, one of the second, with the value of
the last that contains an expression statement. A statement that raises an
error defines nothing and prints nothing, and a run raises an error exactly if
it stops at one of its statements. -/
theorem run_composes (hm : m.error = none) :
    (∀ first second : List Node, m.run (first ++ second) = match m.run first with
      | (.ok value, later) =>
        ((later.run second).1.map fun own => if second.any hasValue then own else value,
          (later.run second).2)
      | (.error failure, later) => (.error failure, later)) ∧
    (∀ (stmt : Node) (e : RuntimeError) (later : Interpreter),
      m.execute stmt = (.error (.error e), later) →
        later.scope = m.scope ∧ later.output = m.output) ∧
    (∀ (stmts : List Node) (e : RuntimeError) (later : Interpreter),
      m.run stmts = (.error (.error e), later) ↔
        ∃ before stmt after reached, stmts = before ++ stmt :: after ∧
          m.StopsAt before stmt e reached later) ∧
    ∀ (before : List Node) (stmt : Node) (e : RuntimeError) (value : Option Value)
      (reached later : Interpreter), m.run before = (.ok value, reached) →
        reached.execute stmt = (.error (.error e), later) →
          m.StopsAt before stmt e reached later := by
  refine ⟨fun first second => ?_, fun stmt e later => execute_keeps_of_error,
    fun stmts e later => ⟨exists_stopsAt hm, ?_⟩,
    fun before stmt e value reached later => stopsAt_of_execute hm⟩
  · rw [run_append hm]
    rcases hfirst : m.run first with ⟨failure | value, later⟩
    · rfl
    · dsimp only
      rw [run_map_or (error_eq_none_of_run hm hfirst)]
  · rintro ⟨before, stmt, after, reached, rfl, hstops⟩
    exact hstops.skips after

/-- A declaration that fails leaves the name as it was, although the name has
been defined, and what comes after it is not printed. -/
theorem run_failing_declaration :
    let m := (new 2).define (.text "a") (.atom .nil)
    let before := [Stmt.print (.var "a")].map Stmt.toNode
    let stmt := (Stmt.var "a" (.unary ⟨.minus, "-", 1, .null⟩ (.var "a"))).toNode
    let after := [Stmt.print (.var "a")].map Stmt.toNode
    let e := RuntimeError.typeError (.negation "Nil") 1
    ∃ reached later, m.StopsAt before stmt e reached later ∧
      m.run (before ++ stmt :: after) = (.error (.error e), later) ∧
      later.scope = [(.text "a", .atom .nil)] ∧ later.output = #["Nil"] := by
  intro m before stmt after e
  obtain ⟨-, -, -, hstops⟩ := run_composes (m := m) rfl
  have hstop := hstops before stmt e none (m.run before).2 ((m.run before).2.execute stmt).2
    rfl rfl
  exact ⟨_, _, hstop, hstop.skips after, hstop.scope, hstop.output⟩

end Lox.Interpreter
