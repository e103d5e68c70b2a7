import Lox.Proofs.Interpreter.Safety
import Lox.Proofs.Program.Lines
/-!
# Interpreters that follow one another

The same statements on two interpreters, the second of which may be more
verbose and may see all operators on other lines. It follows the first
(`Follows`): after each step both have the same names and have printed the
same, and they are halted by the same error, up to its line. The trace of
the first, if one is kept, is a part of that of the second, and all of it
from level three on.
-/

namespace Lox

open Document

/-! ## Errors and messages on other lines -/

/-- An error on another line. -/
def RuntimeError.mapLine (f : Int → Int) : RuntimeError → RuntimeError
  | undefinedVariable name => undefinedVariable name
  | typeError m line => typeError m (f line)

/-- A failure on another line. -/
def Failure.mapLine (f : Int → Int) : Failure → Failure
  | error e => error (e.mapLine f)
  | misfit m => misfit m

/-- A message on another line. -/
def Message.mapLine (f : Int → Int) : Message → Message
  | halted e => halted (e.mapLine f)
  | cleared e => cleared (e.mapLine f)
  | message => message

@[simp]
theorem RuntimeError.mapLine_id : mapLine id = id := by
  funext e
  cases e <;> rfl

@[simp]
theorem Failure.mapLine_id : mapLine id = id := by
  funext failure
  cases failure <;> simp [mapLine]

@[simp]
theorem Message.mapLine_id : mapLine id = id := by
  funext message
  cases message <;> simp [mapLine]

/-- An evaluation whose failure is on another line. -/
def Evaluation.mapLine (f : Int → Int) (evaluation : Evaluation) : Evaluation :=
  ⟨evaluation.operations, evaluation.outcome.mapError (Failure.mapLine f)⟩

/-! ## Expressions on other lines -/

section Evaluate

variable (f : Int → Int)

/-- An operator fails where it stands. -/
theorem Operator.applyUnary_mapLine (t : Token) (value : Value) :
    (t.mapLine f).toOperator.applyUnary value
      = (t.toOperator.applyUnary value).mapError (Failure.mapLine f) := by
  simp only [Operator.applyUnary, Token.toOperator, Token.mapLine]
  split <;> [rfl; (split <;> rfl); rfl]

/-- So does one of two operands. -/
theorem Operator.applyBinary_mapLine (t : Token) (left right : Value) :
    (t.mapLine f).toOperator.applyBinary left right
      = (t.toOperator.applyBinary left right).mapError (Failure.mapLine f) := by
  have hadd : (t.mapLine f).toOperator.add left right
      = (t.toOperator.add left right).mapError (Failure.mapLine f) := by
    unfold Operator.add
    split
    · rfl
    · split <;> rfl
  have harithmetic (g) : (t.mapLine f).toOperator.arithmetic g left right
      = (t.toOperator.arithmetic g left right).mapError (Failure.mapLine f) := by
    unfold Operator.arithmetic
    split <;> rfl
  have hcompare (holds) : (t.mapLine f).toOperator.compare holds left right
      = (t.toOperator.compare holds left right).mapError (Failure.mapLine f) := by
    unfold Operator.compare
    split <;> rfl
  have hequality (negated) : Operator.equality negated left right
      = (Operator.equality negated left right).mapError (Failure.mapLine f) := by
    unfold Operator.equality
    split <;> rfl
  have hkind : (t.mapLine f).toOperator.kind = t.toOperator.kind := rfl
  simp only [Operator.applyBinary, hkind]
  split <;> first | exact hadd | exact harithmetic _ | exact hcompare _ | exact hequality _ | rfl

/-- Going on after an evaluation goes on after it on any lines. -/
theorem Evaluation.andThen_mapLine (first : Evaluation) {next next' : Value → Evaluation}
    (h : ∀ value, next' value = (next value).mapLine f) :
    (first.mapLine f).andThen next' = (first.andThen next).mapLine f := by
  rcases first with ⟨operations, failure | value⟩
  · rfl
  · simp only [andThen, mapLine, Except.mapError, h]

/-- **An expression comes to the same on any lines**, up to the line of its
failure. -/
theorem evaluate_mapLine (scope : Keyed Name Value) (e : Expr) :
    evaluate scope (e.mapLine f).toNode = (evaluate scope e.toNode).mapLine f := by
  induction e with
  | literal => rfl
  | var name =>
    simp only [Expr.mapLine, Expr.toNode, evaluate, lookup, Name.ofJson?]
    split <;> rfl
  | grouping inner ih => exact ih
  | unary operator operand ih =>
    simp only [Expr.mapLine, Expr.toNode, evaluate, ih]
    refine Evaluation.andThen_mapLine f _ fun value => ?_
    exact congrArg Evaluation.leaf (Operator.applyUnary_mapLine f operator value)
  | binary left operator right ihl ihr =>
    simp only [Expr.mapLine, Expr.toNode, evaluate, ihl, ihr]
    refine Evaluation.andThen_mapLine f _ fun x => Evaluation.andThen_mapLine f _ fun y => ?_
    rw [Evaluation.ofOperator_toNode, Evaluation.ofOperator_toNode,
      Operator.applyBinary_mapLine f operator x y]
    cases operator.toOperator.applyBinary x y <;> rfl

/-- A statement of a program is noted as the same text on any lines. -/
theorem Expr.render_mapLine (e : Expr) : (e.mapLine f).render = e.render := by
  induction e with
  | binary left operator right ihl ihr => simp only [mapLine, render, ihl, ihr, Token.mapLine]
  | unary operator operand ih => simp only [mapLine, render, ih, Token.mapLine]
  | grouping inner ih => simp only [mapLine, render, ih]
  | literal | var => rfl

theorem Stmt.render_mapLine (s : Stmt) : (s.mapLine f).render = s.render := by
  cases s <;> simp only [mapLine, render, Expr.render_mapLine]

end Evaluate

/-! ## The relation -/

namespace Interpreter

section Note

variable (m : Interpreter) (message : Message)

@[simp]
theorem note_marks : (m.note message).marks = m.marks := by
  unfold note
  split <;> rfl

@[simp]
theorem note_tracing : (m.note message).tracing = m.tracing := by
  unfold note
  split <;> rfl

/-- A message goes to the end of a trace that is kept. -/
theorem note_trace :
    (m.note message).trace.toList = m.trace.toList ++ if m.tracing then [message] else [] := by
  unfold note
  split <;> simp

end Note

/-- **An interpreter that follows another one**: it may be more verbose, and
its errors may be on other lines. -/
structure Follows (f : Int → Int) (low : Nat) (n m : Interpreter) : Prop where
  scope : n.scope = m.scope
  marks : n.marks = m.marks
  output : n.output = m.output
  error : n.error = m.error.map (RuntimeError.mapLine f)
  level : m.level = low
  le_level : low ≤ n.level
  /-- The traces are kept or closed together. -/
  tracing : 1 ≤ low → n.tracing = m.tracing
  /-- All messages of the first one are among those of the other. -/
  part : 1 ≤ low → (m.trace.toList.map (Message.mapLine f)).Sublist n.trace.toList
  /-- From level three on there are no others. -/
  whole : 3 ≤ low → n.trace.toList = m.trace.toList.map (Message.mapLine f)

/-- Interpreters that differ in nothing but their level follow one
another. -/
theorem follows_new {low high : Nat} (h : low ≤ high) : (new high).Follows id low (new low) where
  scope := rfl
  marks := rfl
  output := rfl
  error := rfl
  level := rfl
  le_level := h
  tracing hlow := by simp [new, Nat.lt_of_lt_of_le hlow h, Nat.lt_of_succ_le hlow]
  part _ := .slnil
  whole _ := rfl

/-- An interpreter whose error and messages are on other lines. -/
def mapLine (f : Int → Int) (m : Interpreter) : Interpreter :=
  { m with
    error := m.error.map (RuntimeError.mapLine f)
    trace := (m.trace.toList.map (Message.mapLine f)).toArray }

/-- It follows the one that it was. -/
theorem follows_mapLine (f : Int → Int) (m : Interpreter) : (m.mapLine f).Follows f m.level m where
  scope := rfl
  marks := rfl
  output := rfl
  error := rfl
  level := rfl
  le_level := le_refl _
  tracing _ := rfl
  part _ := by simp [mapLine]
  whole _ := by simp [mapLine]

namespace Follows

variable {f : Int → Int} {low : Nat} {m n : Interpreter}

/-- Both are halted, or neither is. -/
theorem halted (h : n.Follows f low m) : n.halted = m.halted := by
  rw [Interpreter.halted, h.error, Interpreter.halted, Option.isSome_map]

/-- One that follows an interpreter without an error has none. -/
theorem error_eq_none (h : n.Follows f low m) (hm : m.error = none) : n.error = none := by
  rw [h.error, hm]
  rfl

/-- While nothing is traced and there is no error, one that follows does so on
any lines. -/
theorem relabel (h : n.Follows f 0 m) (hm : m.error = none) (g : Int → Int) : n.Follows g 0 m :=
  { h with
    error := by rw [h.error, hm]; rfl
    part := fun hlow => absurd hlow (by decide)
    whole := fun hlow => absurd hlow (by decide) }

/-- A message that both note. -/
theorem note (h : n.Follows f low m) (message : Message) :
    (n.note (message.mapLine f)).Follows f low (m.note message) where
  scope := by simpa using h.scope
  marks := by simpa using h.marks
  output := by simpa using h.output
  error := by simpa using h.error
  level := by simpa using h.level
  le_level := by simpa using h.le_level
  tracing := by simpa using h.tracing
  part := by
    intro hlevel
    rw [note_trace, note_trace, h.tracing hlevel, List.map_append]
    refine (h.part hlevel).append ?_
    split <;> simp
  whole := by
    intro hlevel
    rw [note_trace, note_trace, h.tracing (by omega), List.map_append, h.whole hlevel]
    split <;> simp

/-- A message that only the more verbose one notes. -/
theorem note_left (h : n.Follows f low m) (hlow : low < 3) (message : Message) :
    (n.note message).Follows f low m where
  scope := by simpa using h.scope
  marks := by simpa using h.marks
  output := by simpa using h.output
  error := by simpa using h.error
  level := h.level
  le_level := by simpa using h.le_level
  tracing := by simpa using h.tracing
  part := by
    intro hlevel
    rw [note_trace]
    exact (h.part hlevel).trans (List.sublist_append_left _ _)
  whole hlevel := absurd hlow (by omega)

/-- A message that is noted from a level on. -/
theorem noteFrom (h : n.Follows f low m) {level : Nat} (hlevel : level ≤ 3) (message : Message) :
    (if level ≤ n.level then n.note (message.mapLine f) else n).Follows f low
      (if level ≤ m.level then m.note message else m) := by
  rw [h.level]
  by_cases hm : level ≤ low
  · rw [if_pos hm, if_pos (hm.trans h.le_level)]
    exact h.note message
  · rw [if_neg hm]
    split
    · exact h.note_left (by omega) _
    · exact h

/-- Operations are noted from level three on. -/
theorem noteOperations (h : n.Follows f low m) (operations : List Operation) :
    (n.noteOperations operations).Follows f low (m.noteOperations operations) := by
  unfold Interpreter.noteOperations
  rw [h.level]
  by_cases hlow : 3 ≤ low
  · rw [if_pos hlow, if_pos (hlow.trans h.le_level)]
    induction operations generalizing m n with
    | nil => exact h
    | cons o rest ih => exact ih (h.note (.operated o))
  · rw [if_neg hlow]
    split
    · induction operations generalizing n with
      | nil => exact h
      | cons o rest ih => exact ih (h.note_left (by omega) _) (by simpa)
    · exact h

/-- The same error halts both. -/
theorem halt (h : n.Follows f low m) (e : RuntimeError) :
    (n.halt (e.mapLine f)).Follows f low (m.halt e) :=
  { h.note (.halted e) with error := rfl }

/-- Both are cleared of their error. -/
theorem reset (h : n.Follows f low m) : n.reset.Follows f low m.reset := by
  rcases herror : m.error with _ | e
  · simpa only [Interpreter.reset, herror, h.error_eq_none herror] using h
  · have hn : n.error = some (e.mapLine f) := by rw [h.error, herror]; rfl
    simp only [Interpreter.reset, herror, hn]
    exact { h.note (.cleared e) with error := rfl }

/-- Both print a line. -/
theorem print (h : n.Follows f low m) (line : String) :
    (n.print line).Follows f low (m.print line) :=
  { h with output := congrArg (·.push line) h.output }

/-- Both define a name. -/
theorem define (h : n.Follows f low m) (name : Name) (value : Value) :
    (n.define name value).Follows f low (m.define name value) :=
  { h with scope := congrArg (·.set name value) h.scope }

/-- Both close their trace. -/
theorem close (h : n.Follows f low m) : n.close.Follows f low m.close :=
  { h with tracing := fun _ => rfl }

/-- Both mark a value. -/
theorem mark (h : n.Follows f low m) (value : Value) :
    (n.mark value).1 = (m.mark value).1 ∧ (n.mark value).2.Follows f low (m.mark value).2 := by
  unfold Interpreter.mark
  split
  · exact ⟨by simp [h.marks], { h with marks := congrArg (· + 1) h.marks }⟩
  · exact ⟨rfl, h⟩

end Follows

/-- Attempts that accord: the same result, or the same failure on another
line, and the one interpreter follows the other. -/
structure Accord {α : Type} (f : Int → Int) (low : Nat)
    (second first : Except Failure α × Interpreter) : Prop where
  result : second.1 = first.1.mapError (Failure.mapLine f)
  follows : second.2.Follows f low first.2

namespace Accord

variable {α β : Type} {f : Int → Int} {low : Nat}
  {first second : Except Failure α × Interpreter}

/-- Attempts that accord have the same result, or the same failure. -/
theorem cases (h : Accord f low second first) :
    (∃ a m n, first = (.ok a, m) ∧ second = (.ok a, n) ∧ n.Follows f low m) ∨
      ∃ failure m n, first = (.error failure, m) ∧ second = (.error (failure.mapLine f), n) ∧
        n.Follows f low m := by
  obtain ⟨result, n⟩ := second
  rcases first with ⟨failure | a, m⟩ <;> obtain ⟨rfl, hfollows⟩ := h
  · exact .inr ⟨failure, m, n, rfl, rfl, hfollows⟩
  · exact .inl ⟨a, m, n, rfl, rfl, hfollows⟩

/-- They accord in what is made of their result. -/
theorem map (h : Accord f low second first) (g : α → β) :
    Accord f low (second.1.map g, second.2) (first.1.map g, first.2) := by
  refine ⟨?_, h.follows⟩
  rw [h.result]
  cases first.1 <;> rfl

end Accord

/-! ## Statements on interpreters that follow one another -/

section Statements

variable {f : Int → Int} {low : Nat} {m n : Interpreter}

/-- An expression evaluates in accord. -/
theorem Follows.evaluate (h : n.Follows f low m) (e : Expr) :
    Accord f low (n.evaluate (e.mapLine f).toNode) (m.evaluate e.toNode) := by
  simp only [Interpreter.evaluate, h.halted]
  split
  · exact ⟨rfl, h⟩
  · rw [h.scope, evaluate_mapLine]
    have hnoted := h.noteOperations (Lox.evaluate m.scope e.toNode).operations
    rcases houtcome : (Lox.evaluate m.scope e.toNode).outcome with (error | misfit) | value
    · simp only [Evaluation.mapLine, houtcome, Except.mapError, Failure.mapLine]
      exact ⟨rfl, hnoted.halt error⟩
    · simp only [Evaluation.mapLine, houtcome, Except.mapError, Failure.mapLine]
      exact ⟨rfl, hnoted⟩
    · simp only [Evaluation.mapLine, houtcome, Except.mapError]
      exact ⟨rfl, hnoted⟩

/-- A name is declared in accord. -/
theorem Follows.declare (h : n.Follows f low m) (name : Json) (value : Value) :
    Accord f low (n.declare name value) (m.declare name value) := by
  unfold Interpreter.declare
  split
  · exact ⟨rfl, h⟩
  · next name hname =>
    obtain ⟨hvalue, hmark⟩ := h.mark value
    simp only [hvalue]
    exact ⟨rfl, (hmark.define name _).noteFrom (by decide) (.defined name.plain _)⟩

/-- A statement is noted in accord. -/
theorem Follows.noteStmt (h : n.Follows f low m) (message : String → Message)
    (hmessage : ∀ text, (message text).mapLine f = message text) (s : Stmt) :
    Accord f low (n.noteStmt message (s.mapLine f).toNode) (m.noteStmt message s.toNode) := by
  rw [noteStmt_toNode, noteStmt_toNode, s.render_mapLine]
  refine ⟨rfl, ?_⟩
  have hnoted := h.noteFrom (show 1 ≤ 3 by decide) (message s.render)
  rwa [hmessage] at hnoted

/-- A statement is carried out in accord. -/
theorem Follows.perform (h : n.Follows f low m) (s : Stmt) :
    Accord f low (n.perform (s.mapLine f).toNode) (m.perform s.toNode) := by
  cases s with
  | expr e => exact (h.evaluate e).map some
  | print e =>
    rcases (h.evaluate e).cases with
      ⟨value, m', n', hm, hn, hfollows⟩ | ⟨failure, m', n', hm, hn, hfollows⟩ <;>
      simp only [Stmt.mapLine, Stmt.toNode, Interpreter.perform, hm, hn]
    · exact ⟨rfl, hfollows.print _⟩
    · exact ⟨rfl, hfollows⟩
  | var name e =>
    rcases (h.evaluate e).cases with
      ⟨value, m', n', hm, hn, hfollows⟩ | ⟨failure, m', n', hm, hn, hfollows⟩ <;>
      simp only [Stmt.mapLine, Stmt.toNode, Interpreter.perform, hm, hn]
    · exact (hfollows.declare (.str name) value).map _
    · exact ⟨rfl, hfollows⟩

/-- So is its execution. -/
theorem Follows.execute (h : n.Follows f low m) (s : Stmt) :
    Accord f low (n.execute (s.mapLine f).toNode) (m.execute s.toNode) := by
  simp only [Interpreter.execute, h.halted]
  split
  · exact ⟨rfl, h⟩
  · rcases (h.noteStmt .executing (fun _ => rfl) s).cases with
      ⟨_, m', n', hm, hn, hfollows⟩ | ⟨failure, m', n', hm, hn, hfollows⟩ <;> rw [hm, hn]
    · exact hfollows.perform s
    · exact ⟨rfl, hfollows⟩

/-- Statements have a value on any lines or on none. -/
theorem hasValue_mapLine (f : Int → Int) (s : Stmt) :
    hasValue (s.mapLine f).toNode = hasValue s.toNode := by
  cases s <;> rfl

/-- **Runs are in accord**, statement by statement. -/
theorem Follows.runFrom (h : n.Follows f low m) (last : Option Value) (ss : List Stmt) :
    Accord f low (n.runFrom last ((ss.map (Stmt.mapLine f)).map Stmt.toNode))
      (m.runFrom last (ss.map Stmt.toNode)) := by
  induction ss generalizing m n last with
  | nil => exact ⟨rfl, h⟩
  | cons s rest ih =>
    simp only [List.map_cons, Interpreter.runFrom, h.halted]
    split
    · exact (h.noteStmt .skipping (fun _ => rfl) s).map _
    · rcases (h.execute s).cases with
        ⟨value, m', n', hm, hn, hfollows⟩ | ⟨failure, m', n', hm, hn, hfollows⟩ <;> rw [hm, hn]
      · rw [hasValue_mapLine]
        exact ih hfollows _
      · exact ⟨rfl, hfollows⟩

end Statements

end Interpreter

end Lox
