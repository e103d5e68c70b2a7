import Lox.Proofs.Interpreter.Follows
/-!
# Tracing only observes

A session at two levels. What a call answers, prints and leaves behind is
the same at both (`sameButTrace_session`), since the interpreter at the higher
level follows the one at the lower one through every call
(`Follows.call`). The lower trace is a part of the higher one, and from
level three on both are the same.
-/

namespace Lox

open Document

/-- A call whose trees are those of programs. -/
inductive Call.OfProgram : Call → Prop
  | run (ss : List Stmt) : OfProgram (.run (ss.map Stmt.toNode))
  | execute (s : Stmt) : OfProgram (.execute s.toNode)
  | evaluate (e : Expr) : OfProgram (.evaluate e.toNode)
  | define (name : Name) (value : Value) : OfProgram (.define name value)
  | reset : OfProgram .reset
  | remark (text : String) : OfProgram (.remark text)
  | close : OfProgram .close

namespace Interpreter

/-- **A call is answered in accord** at both levels. -/
theorem Follows.call {low : Nat} {m n : Interpreter} (h : n.Follows id low m) {c : Call}
    (hc : c.OfProgram) : Accord id low (n.call c) (m.call c) := by
  cases hc with
  | run ss =>
    have hrun := h.runFrom none ss
    rwa [Stmt.mapLine_id, List.map_id] at hrun
  | execute s =>
    have hexecute := h.execute s
    rwa [Stmt.mapLine_id] at hexecute
  | evaluate e =>
    have hevaluate := (h.evaluate e).map some
    rwa [Expr.mapLine_id] at hevaluate
  | define name value => exact ⟨rfl, h.define name value⟩
  | reset => exact ⟨rfl, h.reset⟩
  | remark text => exact ⟨rfl, h.note (.remark text)⟩
  | close => exact ⟨rfl, h.close⟩

/-- Two answers with the states after them that are the same but for what
is traced, of which the second holds more. -/
structure SameButTrace (low : Nat) (quiet verbose : Answer × Interpreter) : Prop where
  answer : verbose.1 = quiet.1
  output : verbose.2.output = quiet.2.output
  error : verbose.2.error = quiet.2.error
  scope : verbose.2.scope = quiet.2.scope
  /-- What is traced at the lower level is traced at the higher one. -/
  part : 1 ≤ low → quiet.2.trace.toList.Sublist verbose.2.trace.toList
  /-- From level three on the same is traced. -/
  whole : 3 ≤ low → verbose.2.traceText? = quiet.2.traceText? ∧
    verbose.2.trace = quiet.2.trace

/-- Answers in accord are the same but for the trace. -/
theorem Accord.sameButTrace {low : Nat} {quiet verbose : Answer × Interpreter}
    (h : Accord id low verbose quiet) : SameButTrace low quiet verbose := by
  obtain ⟨hresult, hfollows⟩ := h
  have hwhole : 3 ≤ low → verbose.2.trace = quiet.2.trace := fun hlow =>
    Array.toList_inj.1 (by simpa using hfollows.whole hlow)
  exact {
    answer := by
      rw [hresult]
      cases quiet.1 <;> simp [Except.mapError]
    output := hfollows.output
    error := by simpa using hfollows.error
    scope := hfollows.scope
    part := fun hlow => by simpa using hfollows.part hlow
    whole := fun hlow => by
      have hlevel := hfollows.le_level
      have htext : verbose.2.traceText? = quiet.2.traceText? := by
        rw [traceText?, traceText?, hwhole hlow, hfollows.level, if_pos (by omega),
          if_pos (by omega)]
      exact ⟨htext, hwhole hlow⟩ }

/-- Sessions of interpreters that follow one another are the same but for
the trace, call by call. -/
theorem Follows.session {low : Nat} {m n : Interpreter} (h : n.Follows id low m)
    {calls : List Call} (hcalls : ∀ c ∈ calls, c.OfProgram) :
    List.Forall₂ (SameButTrace low) (m.session calls) (n.session calls) := by
  induction calls generalizing m n with
  | nil => exact .nil
  | cons c rest ih =>
    obtain ⟨hc, hrest⟩ := List.forall_mem_cons.1 hcalls
    have hcall := h.call hc
    exact .cons hcall.sameButTrace (ih hcall.follows hrest)

/-- **Tracing only observes**: a session of any calls comes to the same at
any two levels, call by call, and the trace of the lower level is a part of
that of the higher one. -/
theorem sameButTrace_session {low high : Nat} (h : low ≤ high) {calls : List Call}
    (hcalls : ∀ c ∈ calls, c.OfProgram) :
    List.Forall₂ (SameButTrace low) ((new low).session calls) ((new high).session calls) :=
  (follows_new h).session hcalls

/-- A definition, a failing run and what is left of the session after it, at
levels one and three. -/
theorem sameButTrace_failing_run :
    let calls : List Call := [.run ([.var "x" (.literal (.number 1)),
      .print (.binary (.var "x") ⟨.minus, "-", 1, .null⟩ (.literal .nil))].map Stmt.toNode),
      .evaluate (Expr.var "x").toNode, .reset, .execute (Stmt.print (.var "x")).toNode]
    List.Forall₂ (SameButTrace 1) ((new 1).session calls) ((new 3).session calls) := by
  intro calls
  refine sameButTrace_session (by decide) ?_
  simp only [calls, List.forall_mem_cons]
  exact ⟨.run _, .evaluate (.var "x"), .reset, .execute (.print (.var "x")), List.forall_mem_nil _⟩

end Interpreter

end Lox
