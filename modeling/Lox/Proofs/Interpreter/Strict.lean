import Lox.Proofs.Interpreter.Runs
import Lox.Proofs.Interpreter.Trace
/-!
# Strict evaluation

An expression is evaluated through its occurrences in post-order: each one is
evaluated before those that contain it, left before right. On its own an
occurrence succeeds or fails as any expression does. The evaluation of the
whole goes on while they succeed and ends at the first one that fails, with
its failure (`through_occurrences`); the operations that it lists are those
of the binary occurrences up to there.
-/

namespace Lox

open Document

/-- An evaluation may end with the value that it has. -/
theorem Evaluation.andThen_ok (evaluation : Evaluation) :
    (evaluation.andThen fun v => .leaf (.ok v)) = evaluation := by
  unfold andThen
  split
  · next v hv => simp only [leaf, List.append_nil, ← hv]
  · next failure hfailure => rw [← hfailure]

namespace Expr

/-- **The occurrences of an expression in post-order**: those of its operands,
left before right, and then itself. -/
def occurrences : Expr → List Expr
  | binary left operator right =>
    left.occurrences ++ right.occurrences ++ [binary left operator right]
  | unary operator operand => operand.occurrences ++ [unary operator operand]
  | grouping inner => inner.occurrences ++ [grouping inner]
  | literal value => [literal value]
  | var name => [var name]

/-- Whether an expression has two operands. -/
def isBinary : Expr → Bool
  | binary .. => true
  | _ => false

variable (scope : Keyed Name Value)

/-- **The operation of a binary expression**: of the values that its operands
have on their own, with its own value for a result. -/
inductive Operates : Expr → Operation → Prop
  | binary {left right : Expr} {operator : Token} {x y result : Value} :
      left.outcome scope = .ok x → right.outcome scope = .ok y →
      (binary left operator right).outcome scope = .ok result →
      Operates (binary left operator right) ⟨x, operator.lexeme, y, result⟩

/-- **What an expression raises itself**, where its operands have values. -/
inductive Raises : Expr → Failure → Prop
  /-- A name is not defined, on no line. -/
  | name {name : String} {e : RuntimeError} :
      e.diagnostic.name = "UndefinedVariable" → e.diagnostic.line = none →
      Raises (var name) (.error e)
  /-- An operator does not apply, on its line. -/
  | unary {operator : Token} {operand : Expr} {e : RuntimeError} :
      e.diagnostic.name = "TypeError" → e.diagnostic.line = some operator.line →
      Raises (unary operator operand) (.error e)
  | binary {operator : Token} {left right : Expr} {e : RuntimeError} :
      e.diagnostic.name = "TypeError" → e.diagnostic.line = some operator.line →
      Raises (binary left operator right) (.error e)
  /-- Values that are no atoms cannot be compared. -/
  | incomparable {operator : Token} {left right : Expr} {misfit : Misfit} :
      Raises (binary left operator right) (.misfit misfit)

/-- **Occurrences that succeed**, each on its own, with the operations of the
binary ones among them. -/
structure Succeed (es : List Expr) (operations : List Operation) : Prop where
  succeeds : ∀ s ∈ es, ∃ v, s.outcome scope = .ok v
  operates : List.Forall₂ (Operates scope) (es.filter isBinary) operations

/-- **Occurrences that are stopped**: the first of them succeed, and the next
one raises the failure on its own. -/
def Stopped (es : List Expr) (operations : List Operation) (failure : Failure) : Prop :=
  ∃ before s after, es = before ++ s :: after ∧ Succeed scope before operations ∧
    s.outcome scope = .error failure ∧ s.Raises failure

/-- **An evaluation goes through occurrences**: to their end, or to the first
one that fails. -/
def Through (es : List Expr) (evaluation : Evaluation) : Prop :=
  match evaluation.outcome with
  | .ok _ => Succeed scope es evaluation.operations
  | .error failure => Stopped scope es evaluation.operations failure

variable {scope} {es es' : List Expr} {operations operations' : List Operation}
  {failure : Failure}

/-- Some succeed after others. -/
theorem Succeed.append (h : Succeed scope es operations) (h' : Succeed scope es' operations') :
    Succeed scope (es ++ es') (operations ++ operations') where
  succeeds := List.forall_mem_append.2 ⟨h.succeeds, h'.succeeds⟩
  operates := by
    rw [List.filter_append]
    exact List.rel_append h.operates h'.operates

/-- Some are stopped after others that succeed. -/
theorem Succeed.append_stopped (h : Succeed scope es operations)
    (h' : Stopped scope es' operations' failure) :
    Stopped scope (es ++ es') (operations ++ operations') failure := by
  obtain ⟨before, s, after, rfl, hbefore, hs⟩ := h'
  exact ⟨es ++ before, s, after, by rw [List.append_assoc], h.append hbefore, hs⟩

/-- What is stopped goes nowhere after that. -/
theorem Stopped.append (h : Stopped scope es operations failure) (more : List Expr) :
    Stopped scope (es ++ more) operations failure := by
  obtain ⟨before, s, after, rfl, hbefore, hs⟩ := h
  exact ⟨before, s, after ++ more, by rw [List.append_assoc, List.cons_append], hbefore, hs⟩

/-- **One evaluation after another** goes through the occurrences of both. -/
theorem Through.andThen {first : Evaluation} {next : Value → Evaluation}
    (h : Through scope es first)
    (h' : ∀ v, first.outcome = .ok v → Through scope es' (next v)) :
    Through scope (es ++ es') (first.andThen next) := by
  unfold Through Evaluation.andThen at *
  rcases hfirst : first.outcome with failure | v
  · rw [hfirst] at h
    exact h.append es'
  · rw [hfirst] at h
    have hnext := h' v hfirst
    dsimp only at hnext h ⊢
    rcases hsecond : (next v).outcome with failure | w <;> rw [hsecond] at hnext
    · exact h.append_stopped hnext
    · exact h.append hnext

/-! ## One occurrence -/

/-- An occurrence that succeeds goes on. -/
theorem through_of_ok {s : Expr} {v : Value} (h : s.outcome scope = .ok v)
    (hoperates : List.Forall₂ (Operates scope) ([s].filter isBinary) operations) :
    Through scope [s] ⟨operations, .ok v⟩ :=
  ⟨List.forall_mem_singleton.2 ⟨v, h⟩, hoperates⟩

/-- An occurrence that fails itself is where the evaluation is stopped. -/
theorem through_of_error {s : Expr} (h : s.outcome scope = .error failure)
    (hraises : s.Raises failure) : Through scope [s] (.leaf (.error failure)) :=
  ⟨[], s, [], rfl, ⟨List.forall_mem_nil _, .nil⟩, h, hraises⟩

/-- Only a name that is not defined has no value. -/
theorem raises_of_lookup {name : String} (h : lookup scope (.str name) = .error failure) :
    (var name).Raises failure := by
  rw [lookup, Name.ofJson?] at h
  dsimp only at h
  split at h
  · cases h
  · obtain rfl := Except.error.inj h
    exact .name rfl rfl

/-- An operator of one operand fails on its line. -/
theorem raises_of_applyUnary {operator : Token} {operand : Expr} {v : Value}
    (h : operator.toOperator.applyUnary v = .error failure) :
    (unary operator operand).Raises failure := by
  unfold Operator.applyUnary at h
  split at h
  · cases h
  · split at h
    · cases h
    · obtain rfl := Except.error.inj h
      exact .unary rfl rfl
  · obtain rfl := Except.error.inj h
    exact .unary rfl rfl

/-- An operator of two operands fails on its line, unless it compares what is
no atom. -/
theorem raises_of_applyBinary {operator : Token} {left right : Expr} {x y : Value}
    (h : operator.toOperator.applyBinary x y = .error failure) :
    (binary left operator right).Raises failure := by
  have hmismatch {m : Mismatch} (hm : .error (operator.toOperator.mismatch m)
      = (.error failure : Except Failure Value)) : (binary left operator right).Raises failure := by
    obtain rfl := Except.error.inj hm
    exact .binary rfl rfl
  have hadd (hsum : operator.toOperator.add x y = .error failure) :
      (binary left operator right).Raises failure := by
    unfold Operator.add at hsum
    split at hsum
    · cases hsum
    · split at hsum
      · cases hsum
      · exact hmismatch hsum
  have harithmetic {f : Float → Float → Float}
      (hnumber : operator.toOperator.arithmetic f x y = .error failure) :
      (binary left operator right).Raises failure := by
    unfold Operator.arithmetic at hnumber
    split at hnumber
    · cases hnumber
    · exact hmismatch hnumber
  have hcompare {holds : Float → Float → Bool}
      (horder : operator.toOperator.compare holds x y = .error failure) :
      (binary left operator right).Raises failure := by
    unfold Operator.compare at horder
    split at horder
    · cases horder
    · exact hmismatch horder
  have hequality {negated : Bool} (hsame : Operator.equality negated x y = .error failure) :
      (binary left operator right).Raises failure := by
    unfold Operator.equality at hsame
    split at hsame
    · cases hsame
    · obtain rfl := Except.error.inj hsame
      exact .incomparable
  rw [Operator.applyBinary] at h
  cases hkind : operator.toOperator.kind <;> simp only [hkind] at h
  case plus => exact hadd h
  case minus | star | slash => exact harithmetic h
  case greater | greaterEqual | less | lessEqual => exact hcompare h
  case equalEqual | bangEqual => exact hequality h
  all_goals exact hmismatch h

/-- **An evaluation goes through the occurrences of its expression.** -/
theorem through_occurrences (scope : Keyed Name Value) (e : Expr) :
    Through scope e.occurrences (evaluate scope e.toNode) := by
  induction e with
  | literal value => exact through_of_ok rfl .nil
  | var name =>
    have houtcome : (var name).outcome scope = lookup scope (.str name) := rfl
    rw [toNode, evaluate]
    rcases hlookup : lookup scope (.str name) with failure | v
    · exact through_of_error (houtcome.trans hlookup) (raises_of_lookup hlookup)
    · exact through_of_ok (houtcome.trans hlookup) .nil
  | grouping inner ih =>
    rw [occurrences, toNode, evaluate, ← Evaluation.andThen_ok (evaluate scope inner.toNode)]
    exact ih.andThen fun v hv => through_of_ok hv .nil
  | unary operator operand ih =>
    rw [occurrences, toNode, evaluate]
    refine ih.andThen fun v hv => ?_
    have houtcome : (unary operator operand).outcome scope = operator.toOperator.applyUnary v := by
      rw [outcome_unary, outcome, hv]
      rfl
    show Through scope _ (.leaf (operator.toOperator.applyUnary v))
    rcases happly : operator.toOperator.applyUnary v with failure | result
    · exact through_of_error (houtcome.trans happly) (raises_of_applyUnary happly)
    · exact through_of_ok (houtcome.trans happly) .nil
  | binary left operator right ihl ihr =>
    rw [occurrences, List.append_assoc, toNode, evaluate]
    refine ihl.andThen fun x hx => ihr.andThen fun y hy => ?_
    have houtcome : (binary left operator right).outcome scope
        = operator.toOperator.applyBinary x y := by
      rw [outcome_binary, outcome, hx, outcome, hy]
      rfl
    rw [Evaluation.ofOperator_toNode]
    rcases happly : operator.toOperator.applyBinary x y with failure | result
    · exact through_of_error (houtcome.trans happly) (raises_of_applyBinary happly)
    · have hresult := houtcome.trans happly
      exact through_of_ok hresult (.cons (.binary hx hy hresult) .nil)

/-! ## Success and failure -/

variable {e : Expr}

/-- Where an expression has a value, all of its occurrences succeed. -/
theorem succeed_of_outcome {v : Value} (h : e.outcome scope = .ok v) :
    Succeed scope e.occurrences (evaluate scope e.toNode).operations := by
  have hthrough := through_occurrences scope e
  rwa [Through, show (evaluate scope e.toNode).outcome = .ok v from h] at hthrough

/-- Where it fails, they are stopped by its failure. -/
theorem stopped_of_outcome (h : e.outcome scope = .error failure) :
    Stopped scope e.occurrences (evaluate scope e.toNode).operations failure := by
  have hthrough := through_occurrences scope e
  rwa [Through, show (evaluate scope e.toNode).outcome = .error failure from h] at hthrough

/-- **There is no short circuit**: an expression has a value exactly if all of
its occurrences have one. -/
theorem outcome_eq_ok_iff : (∃ v, e.outcome scope = .ok v) ↔
    ∀ s ∈ e.occurrences, ∃ v, s.outcome scope = .ok v := by
  constructor
  · rintro ⟨v, hv⟩
    exact (succeed_of_outcome hv).succeeds
  · intro hall
    rcases houtcome : e.outcome scope with failure | v
    · obtain ⟨before, s, after, hsplit, -, hs, -⟩ := stopped_of_outcome houtcome
      obtain ⟨v, hv⟩ := hall s (by simp [hsplit])
      rw [hs] at hv
      cases hv
    · exact ⟨v, rfl⟩

/-- The failure of an expression, if it has no value. -/
def failure? (scope : Keyed Name Value) (e : Expr) : Option Failure :=
  match e.outcome scope with
  | .ok _ => none
  | .error failure => some failure

/-- The failure after occurrences that succeed is the first one. -/
theorem findSome?_failure? {before after : List Expr} {s : Expr}
    (hbefore : ∀ t ∈ before, ∃ v, t.outcome scope = .ok v)
    (hs : s.outcome scope = .error failure) :
    (before ++ s :: after).findSome? (failure? scope) = some failure := by
  refine List.findSome?_eq_some_iff.2 ⟨before, s, after, rfl, by rw [failure?, hs], fun t ht => ?_⟩
  obtain ⟨v, hv⟩ := hbefore t ht
  rw [failure?, hv]

/-- **The first failure is the one that counts.** -/
theorem outcome_eq_error_iff : e.outcome scope = .error failure ↔
    ∃ before s after, e.occurrences = before ++ s :: after ∧
      (∀ t ∈ before, ∃ v, t.outcome scope = .ok v) ∧ s.outcome scope = .error failure := by
  constructor
  · intro hfailure
    obtain ⟨before, s, after, hsplit, hbefore, hs, -⟩ := stopped_of_outcome hfailure
    exact ⟨before, s, after, hsplit, hbefore.succeeds, hs⟩
  · rintro ⟨before, s, after, hsplit, hbefore, hs⟩
    rcases houtcome : e.outcome scope with failure' | v
    · obtain ⟨before', s', after', hsplit', hbefore', hs', -⟩ := stopped_of_outcome houtcome
      have hfirst : e.occurrences.findSome? (failure? scope) = some failure :=
        hsplit ▸ findSome?_failure? hbefore hs
      have hfirst' : e.occurrences.findSome? (failure? scope) = some failure' :=
        hsplit' ▸ findSome?_failure? hbefore'.succeeds hs'
      rw [Option.some.inj (hfirst.symm.trans hfirst')]
    · obtain ⟨w, hw⟩ := (succeed_of_outcome houtcome).succeeds s (by simp [hsplit])
      rw [hs] at hw
      cases hw

end Expr

namespace Interpreter

variable {m : Interpreter}

/-- Operations are traced from level three on. -/
theorem noted_noteOperations (hm : m.Keeps) (operations : List Operation) :
    Noted m (m.noteOperations operations)
      (if 3 ≤ m.level then operations.map .operated else []) := by
  unfold noteOperations
  split
  · exact noted_operations hm operations
  · exact noted_nil rfl rfl rfl

/-- **What an evaluation traces**: its operations, and then the error that fills
the slot, if it raises one. -/
theorem noted_evaluate (hm : m.Keeps) (herror : m.error = none) (expr : Node) :
    Noted m (m.evaluate expr).2
      ((if 3 ≤ m.level then (Lox.evaluate m.scope expr).operations.map .operated else [])
        ++ ((m.evaluate expr).2.error.map Message.halted).toList) := by
  have hoperations := noted_noteOperations hm (Lox.evaluate m.scope expr).operations
  have hopen := (m.noteOperations_error (Lox.evaluate m.scope expr).operations).trans herror
  rw [evaluate_eq_settle herror, settle]
  split
  · next e _ =>
    have hnoted := noted_note (hoperations.keeps hm) (.halted e)
    exact hoperations.trans ⟨hnoted.trace, hnoted.tracing, hnoted.level⟩
  · rw [hopen]
    simpa using hoperations

/-- **How far an evaluation comes**: the occurrences that succeed on their own
from the first on, with the operations of the binary ones. If they are not all,
the next one raises the failure of the whole on its own. The operations are
traced from level three on, and then the error. -/
structure Reaches (m : Interpreter) (e : Expr) (done : List Expr) (operations : List Operation) :
    Prop where
  succeed : Expr.Succeed m.scope done operations
  ends : (e.occurrences = done ∧ ∃ v, (m.evaluate e.toNode).1 = .ok v) ∨
    ∃ s after failure, e.occurrences = done ++ s :: after ∧
      (m.evaluate s.toNode).1 = .error failure ∧ (m.evaluate e.toNode).1 = .error failure ∧
      s.Raises failure
  traced : m.Keeps → Noted m (m.evaluate e.toNode).2
    ((if 3 ≤ m.level then operations.map .operated else [])
      ++ ((m.evaluate e.toNode).2.error.map Message.halted).toList)

/-- **Every evaluation comes to the end or to a first failure.** -/
theorem exists_reaches (hm : m.error = none) (e : Expr) :
    ∃ done operations, m.Reaches e done operations := by
  have hvalue := evaluate_toNode hm e
  rcases houtcome : e.outcome m.scope with failure | v <;> rw [houtcome] at hvalue
  · obtain ⟨done, s, after, hsplit, hdone, hs, hraises⟩ := Expr.stopped_of_outcome houtcome
    exact ⟨done, _, hdone, .inr ⟨s, after, failure, hsplit, (evaluate_toNode hm s).trans hs, hvalue,
      hraises⟩, fun hkeeps => noted_evaluate hkeeps hm e.toNode⟩
  · exact ⟨_, _, Expr.succeed_of_outcome houtcome, .inl ⟨rfl, v, hvalue⟩,
      fun hkeeps => noted_evaluate hkeeps hm e.toNode⟩

/-- **Evaluation is strict and left to right**, and reports the first failure. On
an interpreter that is not halted an expression has a value exactly if all of
its occurrences have one, each on its own, and else it has the failure of the
first occurrence in post-order that fails on its own. A name that is not
defined is reported without a line, an operator with its own. Names and output
stay as they are, and the trace has the operations of the binary occurrences
that succeeded. Every part may handle its own error, and it makes no
difference. -/
theorem evaluates_strictly (hm : m.error = none) (e : Expr) :
    nested e.toNode m = m.evaluate e.toNode ∧
      ((∃ v, (m.evaluate e.toNode).1 = .ok v) ↔
        ∀ s ∈ e.occurrences, ∃ v, (m.evaluate s.toNode).1 = .ok v) ∧
      (∀ failure, (m.evaluate e.toNode).1 = .error failure ↔
        ∃ before s after, e.occurrences = before ++ s :: after ∧
          (∀ t ∈ before, ∃ v, (m.evaluate t.toNode).1 = .ok v) ∧
          (m.evaluate s.toNode).1 = .error failure) ∧
      (m.evaluate e.toNode).2.scope = m.scope ∧ (m.evaluate e.toNode).2.output = m.output ∧
      (∃ done operations, m.Reaches e done operations) ∧
      ((∀ entry ∈ m.scope, entry.2.IsAtom) →
        ∀ misfit, (m.evaluate e.toNode).1 ≠ .error (.misfit misfit)) := by
  obtain ⟨hscope, houtput⟩ := m.evaluate_keeps e.toNode
  refine ⟨nested_eq_evaluate e.toNode m, ?_, fun failure => ?_, hscope, houtput,
    exists_reaches hm e, fun hatoms misfit hmisfit => ?_⟩
  · simp only [evaluate_toNode hm]
    exact Expr.outcome_eq_ok_iff
  · simp only [evaluate_toNode hm]
    exact Expr.outcome_eq_error_iff
  · have hlands := e.lands_outcome hatoms
    rw [← evaluate_toNode hm, hmisfit] at hlands
    exact hlands

/-- An operand that fails after one that is an operation. -/
theorem evaluates_negated_nil :
    let equality : Expr :=
      .binary (.literal (.bool true)) ⟨.equalEqual, "==", 1, .null⟩ (.literal .nil)
    let negation : Expr := .unary ⟨.minus, "-", 2, .null⟩ (.literal .nil)
    let sum : Expr := .binary equality ⟨.plus, "+", 3, .null⟩ negation
    let e : RuntimeError := .typeError (.negation "Nil") 2
    (new 3).error = none ∧ ((new 3).evaluate sum.toNode).1 = .error (.error e) ∧
      ((new 3).evaluate sum.toNode).2.trace.toList
        = [.operated ⟨.atom (.bool true), "==", .atom .nil, .atom (.bool false)⟩, .halted e] := by
  intro equality negation sum e
  obtain ⟨-, -, hfailure, -⟩ := evaluates_strictly (m := new 3) rfl sum
  have hbefore : ∀ t ∈ [.literal (.bool true), .literal .nil, equality, .literal .nil],
      ∃ v, ((new 3).evaluate t.toNode).1 = .ok v := by
    simp only [List.forall_mem_cons, List.not_mem_nil, false_implies, implies_true, and_true]
    exact ⟨⟨_, rfl⟩, ⟨_, rfl⟩, ⟨_, rfl⟩, ⟨_, rfl⟩⟩
  exact ⟨rfl, (hfailure (.error e)).2 ⟨_, negation, [sum], rfl, hbefore, rfl⟩, rfl⟩

end Interpreter

end Lox
