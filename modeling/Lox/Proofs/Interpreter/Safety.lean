import Lox.Proofs.Document.Render
import Lox.Proofs.Interpreter.Nested
import Lox.Proofs.Program.Operands
/-!
# Programs never get stuck

A run of a program ends in a value or in a runtime error, never in a
misfit, and the error is one that the program explains (`Expr.Explains`): a
name that it reads, or one of its operators whose operands do not fit. That
holds of every tree of a program as long as all names have atoms for values
(`Expr.lands_outcome`), and no statement changes that, so it holds of runs
(`Interpreter.safe_execute`, `Interpreter.safe_runFrom`). The operators of a
program that was read from a source apply to as many operands as they have,
so none of them is called unsupported (`Interpreter.completes_or_raises`).
-/

namespace Lox

open Document Program

/-! ## Values under keys -/

namespace Keyed

variable {κ α : Type} [BEq κ] {P : α → Prop}

/-- What all values have, a value that is found has. -/
theorem of_get? {entries : Keyed κ α} (h : ∀ entry ∈ entries, P entry.2) {key : κ} {value : α}
    (hget : entries.get? key = some value) : P value := by
  induction entries with
  | nil => cases hget
  | cons entry rest ih =>
    obtain ⟨hentry, hrest⟩ := List.forall_mem_cons.1 h
    rw [get?] at hget
    split at hget
    · exact Option.some.inj hget ▸ hentry
    · exact ih hrest hget

/-- Setting a value of the same kind leaves all values of that kind. -/
theorem forall_set {entries : Keyed κ α} (h : ∀ entry ∈ entries, P entry.2) (key : κ) {value : α}
    (hvalue : P value) : ∀ entry ∈ entries.set key value, P entry.2 := by
  induction entries with
  | nil => simpa [set] using hvalue
  | cons entry rest ih =>
    obtain ⟨hentry, hrest⟩ := List.forall_mem_cons.1 h
    rw [set]
    split
    · exact List.forall_mem_cons.2 ⟨hvalue, hrest⟩
    · exact List.forall_mem_cons.2 ⟨hentry, ih hrest⟩

end Keyed

/-! ## What may go wrong -/

/-- The names that an expression reads. -/
def Expr.names : Expr → List String
  | binary left _ right => left.names ++ right.names
  | unary _ operand => operand.names
  | grouping inner => inner.names
  | literal _ => []
  | var name => [name]

/-- Whether a mismatch is of a token that is no operator for its operands. -/
def Mismatch.Unsupported : Mismatch → Prop
  | noUnary _ | noBinary _ => True
  | _ => False

/-- A mismatch of an operator that applies is not called unsupported. -/
theorem Mismatch.message_ne_unsupported {m : Mismatch} (h : ¬ m.Unsupported) (text : String) :
    m.message ≠ "Unsupported unary operator" ++ text ∧
      m.message ≠ "Unsupported binary operator" ++ text := by
  have hfirst (first rest : String) :
      (first ++ rest).toList.head? = first.toList.head?.or rest.toList.head? := by
    rw [String.toList_append, List.head?_append]
  have hhead : m.message.toList.head? ≠ some 'U' := by
    cases m with
    | negation | addition | arithmetic | comparison =>
      -- The equations of `message` are too large to rewrite with.
      delta message
      simp only [hfirst, String.reduceToList, List.head?_cons, Option.some_or]
      decide
    | noUnary | noBinary => exact absurd trivial h
  constructor <;> intro heq <;> refine hhead ?_ <;> rw [heq, hfirst] <;>
    simp only [String.reduceToList, List.head?_cons, Option.some_or]

/-- The errors that an expression explains. A token is no operator for its
operands only in a tree that no source has. -/
inductive Expr.Explains (e : Expr) : RuntimeError → Prop
  | name {name : String} (hname : name ∈ e.names) : e.Explains (.undefinedVariable name)
  | operator {t : Token} {m : Mismatch} (ht : t ∈ e.operators) (hm : m.Unsupported → ¬ e.Apt) :
    e.Explains (.typeError m t.line)

/-- What an expression explains, one that contains it explains. -/
theorem Expr.Explains.mono {e f : Expr} {error : RuntimeError} (h : e.Explains error)
    (hnames : e.names ⊆ f.names) (hoperators : e.operators ⊆ f.operators)
    (hapt : f.Apt → e.Apt) : f.Explains error := by
  cases h with
  | name hname => exact .name (hnames hname)
  | operator ht hm =>
    exact .operator (hoperators ht) fun hunsupported hf => hm hunsupported (hapt hf)

/-- A report about one of some names, or about one of some operators, which
it does not call unsupported. -/
def Diagnostic.About (names : List String) (operators : List Token) (d : Diagnostic) : Prop :=
  (∃ name ∈ names, d = ⟨"UndefinedVariable", "Undefined variable '" ++ name ++ "'.", none⟩) ∨
    ∃ t ∈ operators, d.name = "TypeError" ∧ d.line = some t.line ∧
      ∀ text, d.message ≠ "Unsupported unary operator" ++ text ∧
        d.message ≠ "Unsupported binary operator" ++ text

/-- What an expression explains whose operators apply is reported as about
it. -/
theorem Expr.Explains.about {e : Expr} {error : RuntimeError} (h : e.Explains error)
    (he : e.Apt) : error.diagnostic.About e.names e.operators := by
  cases h with
  | name hname => exact .inl ⟨_, hname, rfl⟩
  | @operator t m ht hm =>
    exact .inr ⟨t, ht, rfl, rfl, m.message_ne_unsupported fun hunsupported => hm hunsupported he⟩

/-- A report about some names and operators is one about more of them. -/
theorem Diagnostic.About.mono {names names' : List String} {operators operators' : List Token}
    {d : Diagnostic} (h : d.About names operators) (hnames : names ⊆ names')
    (hoperators : operators ⊆ operators') : d.About names' operators' := by
  rcases h with ⟨name, hname, heq⟩ | ⟨t, ht, h⟩
  · exact .inl ⟨name, hnames hname, heq⟩
  · exact .inr ⟨t, hoperators ht, h⟩

/-- A value that is an atom. -/
def Value.IsAtom (value : Value) : Prop :=
  ∃ a, value = .atom a

/-- A result that is good, or an error that is explained. -/
def Lands {α : Type} (Good : α → Prop) (Explained : RuntimeError → Prop) :
    Except Failure α → Prop
  | .ok a => Good a
  | .error (.error e) => Explained e
  | .error (.misfit _) => False

namespace Lands

variable {α β : Type} {Good Good' : α → Prop} {Explained Explained' : RuntimeError → Prop}

/-- Less may be asked of a result. -/
theorem imp {result : Except Failure α} (h : Lands Good Explained result)
    (hgood : ∀ a, Good a → Good' a) (hexplained : ∀ e, Explained e → Explained' e) :
    Lands Good' Explained' result := by
  rcases result with (e | misfit) | a
  · exact hexplained e h
  · exact h.elim
  · exact hgood a h

/-- What lands has a value, or an error that is explained. -/
theorem cases {result : Except Failure α} (h : Lands Good Explained result) :
    (∃ a, result = .ok a ∧ Good a) ∨ ∃ e, result = .error (.error e) ∧ Explained e := by
  rcases result with (e | misfit) | a
  · exact .inr ⟨e, rfl, h⟩
  · exact h.elim
  · exact .inl ⟨a, rfl, h⟩

/-- What follows a result that lands has to land on any good one. -/
theorem bind {GoodNext : β → Prop} {first : Except Failure α} {next : α → Except Failure β}
    (hfirst : Lands Good Explained first)
    (hnext : ∀ a, Good a → Lands GoodNext Explained (next a)) :
    Lands GoodNext Explained (first.bind next) := by
  rcases first with (e | misfit) | a
  · exact hfirst
  · exact hfirst.elim
  · exact hnext a hfirst

end Lands

/-! ## Outcomes -/

/-- A token as it is applied. -/
def Token.toOperator (t : Token) : Operator :=
  ⟨t.kind, t.lexeme, t.line⟩

namespace Evaluation

/-- The outcome of two evaluations, one after the other. -/
@[simp]
theorem outcome_andThen (first : Evaluation) (next : Value → Evaluation) :
    (first.andThen next).outcome = first.outcome.bind fun value => (next value).outcome := by
  unfold andThen
  split <;> simp [*, Except.bind]

/-- A token as an operator of two operands. -/
theorem ofOperator_toNode (t : Token) (left right : Value) :
    ofOperator t.toNode left right = match t.toOperator.applyBinary left right with
      | .ok result => ⟨[⟨left, t.lexeme, right, result⟩], .ok result⟩
      | .error failure => leaf (.error failure) :=
  rfl

/-- Its outcome is that of the operator. -/
@[simp]
theorem outcome_ofOperator (t : Token) (left right : Value) :
    (ofOperator t.toNode left right).outcome = t.toOperator.applyBinary left right := by
  rw [ofOperator_toNode]
  split <;> simp [*, leaf]

end Evaluation

/-- What an expression comes to. -/
def Expr.outcome (scope : Keyed Name Value) (e : Expr) : Except Failure Value :=
  (evaluate scope e.toNode).outcome

namespace Expr

variable (scope : Keyed Name Value)

theorem outcome_literal (value : Atom) : (literal value).outcome scope = .ok (.atom value) :=
  rfl

theorem outcome_var (name : String) : (var name).outcome scope = lookup scope (.str name) :=
  rfl

theorem outcome_grouping (inner : Expr) : (grouping inner).outcome scope = inner.outcome scope :=
  rfl

theorem outcome_unary (operator : Token) (operand : Expr) :
    (unary operator operand).outcome scope
      = (operand.outcome scope).bind operator.toOperator.applyUnary := by
  simp only [outcome, toNode, evaluate, Evaluation.outcome_andThen]
  rfl

theorem outcome_binary (left : Expr) (operator : Token) (right : Expr) :
    (binary left operator right).outcome scope
      = (left.outcome scope).bind fun x => (right.outcome scope).bind fun y =>
          operator.toOperator.applyBinary x y := by
  simp only [outcome, toNode, evaluate, Evaluation.outcome_andThen, Evaluation.outcome_ofOperator]

end Expr

/-! ## Expressions -/

/-- The errors of an operator that applies if `applies` says so. -/
def Operator.Explains (op : Operator) (applies : Bool) (e : RuntimeError) : Prop :=
  ∃ m, e = .typeError m op.line ∧ (m.Unsupported → applies = false)

namespace Operator

/-- An operator applied to one atom. -/
theorem lands_applyUnary (op : Operator) (a : Atom) :
    Lands Value.IsAtom (op.Explains (isUnary op.kind)) (op.applyUnary (.atom a)) := by
  unfold applyUnary
  split
  · exact ⟨_, rfl⟩
  · split
    · exact ⟨_, rfl⟩
    · exact ⟨_, rfl, False.elim⟩
  · next hbang hminus =>
    refine ⟨_, rfl, fun _ => ?_⟩
    simpa [isUnary] using ⟨hbang, hminus⟩

/-- An operator applied to two atoms. -/
theorem lands_applyBinary (op : Operator) (a b : Atom) :
    Lands Value.IsAtom (op.Explains (isBinary op.kind)) (op.applyBinary (.atom a) (.atom b)) := by
  have hadd : Lands Value.IsAtom (op.Explains (isBinary op.kind)) (op.add (.atom a) (.atom b)) := by
    unfold add
    split
    · exact ⟨_, rfl⟩
    · split
      · exact ⟨_, rfl⟩
      · exact ⟨_, rfl, False.elim⟩
  have harithmetic (f) : Lands Value.IsAtom (op.Explains (isBinary op.kind))
      (op.arithmetic f (.atom a) (.atom b)) := by
    unfold arithmetic
    split
    · exact ⟨_, rfl⟩
    · exact ⟨_, rfl, False.elim⟩
  have hcompare (holds) : Lands Value.IsAtom (op.Explains (isBinary op.kind))
      (op.compare holds (.atom a) (.atom b)) := by
    unfold compare
    split
    · exact ⟨_, rfl⟩
    · exact ⟨_, rfl, False.elim⟩
  have hequality (negated) : Lands Value.IsAtom (op.Explains (isBinary op.kind))
      (equality negated (.atom a) (.atom b)) := ⟨_, rfl⟩
  cases hkind : op.kind <;> rw [hkind] at hadd harithmetic hcompare hequality <;>
    simp only [applyBinary, hkind]
  case plus => exact hadd
  case minus | star | slash => exact harithmetic _
  case greater | greaterEqual | less | lessEqual => exact hcompare _
  case equalEqual | bangEqual => exact hequality _
  all_goals exact ⟨_, rfl, fun _ => rfl⟩

end Operator

/-- The operators of a statement are those of its expression. -/
theorem Stmt.operators_eq (s : Stmt) : s.operators = s.value.operators := by
  cases s <;> rfl

/-- **An expression lands**: where all names have atoms for values, its
value is an atom, or its error is one that it explains. -/
theorem Expr.lands_outcome {scope : Keyed Name Value} (hscope : ∀ entry ∈ scope, entry.2.IsAtom)
    (e : Expr) : Lands Value.IsAtom e.Explains (e.outcome scope) := by
  induction e with
  | literal value =>
    rw [outcome_literal]
    exact ⟨value, rfl⟩
  | var name =>
    rw [outcome_var, lookup]
    simp only [Name.ofJson?]
    split
    · next value hget => exact Keyed.of_get? hscope hget
    · exact .name (List.mem_singleton_self name)
  | grouping inner ih =>
    rw [outcome_grouping]
    refine ih.imp (fun _ h => h) fun _ h => ?_
    exact h.mono (f := grouping inner) (List.Subset.refl _) (List.Subset.refl _) id
  | unary operator operand ih =>
    rw [outcome_unary]
    refine Lands.bind (ih.imp (fun _ h => h) fun _ h => ?_) ?_
    · exact h.mono (f := unary operator operand) (List.Subset.refl _) (List.subset_cons_self _ _)
        And.right
    · rintro _ ⟨a, rfl⟩
      refine (Operator.lands_applyUnary _ a).imp (fun _ h => h) ?_
      rintro _ ⟨m, rfl, hm⟩
      refine .operator List.mem_cons_self fun hunsupported hapt => ?_
      exact Bool.false_ne_true ((hm hunsupported).symm.trans hapt.1)
  | binary left operator right ihl ihr =>
    rw [outcome_binary]
    refine Lands.bind (ihl.imp (fun _ h => h) fun _ h => ?_) ?_
    · exact h.mono (f := binary left operator right) (List.subset_append_left _ _)
        (List.subset_append_left _ _) fun hapt => hapt.2.1
    rintro _ ⟨a, rfl⟩
    refine Lands.bind (ihr.imp (fun _ h => h) fun _ h => ?_) ?_
    · exact h.mono (f := binary left operator right) (List.subset_append_right _ _)
        (List.subset_append_of_subset_right _ (List.subset_cons_self _ _)) fun hapt => hapt.2.2
    · rintro _ ⟨b, rfl⟩
      refine (Operator.lands_applyBinary _ a b).imp (fun _ h => h) ?_
      rintro _ ⟨m, rfl, hm⟩
      refine .operator (by simp [operators]) fun hunsupported hapt => ?_
      exact Bool.false_ne_true ((hm hunsupported).symm.trans hapt.1)

/-! ## Statements -/

/-- A value, if there is one, is an atom. -/
def Value.AtomIfAny (value : Option Value) : Prop :=
  ∀ v ∈ value, v.IsAtom

/-- Where there is no value, none has to be an atom. -/
theorem Value.atomIfAny_none : AtomIfAny none :=
  fun value hvalue => absurd hvalue (Option.not_mem_none value)

namespace Interpreter

/-- An interpreter that is not halted, and whose names all have atoms for
values. -/
structure Ready (m : Interpreter) : Prop where
  error : m.error = none
  atoms : ∀ entry ∈ m.scope, entry.2.IsAtom

/-- A fresh interpreter is ready. -/
theorem ready_new (level : Nat) : (new level).Ready :=
  ⟨rfl, List.forall_mem_nil _⟩

/-- An attempt that lands, and leaves atoms for values. -/
structure Safe {α : Type} (Good : α → Prop) (Explained : RuntimeError → Prop)
    (attempt : Except Failure α × Interpreter) : Prop where
  lands : Lands Good Explained attempt.1
  raises : Raises attempt.1 attempt.2
  atoms : ∀ entry ∈ attempt.2.scope, entry.2.IsAtom

namespace Safe

variable {α : Type} {Good : α → Prop} {Explained : RuntimeError → Prop}
  {attempt : Except Failure α × Interpreter}

/-- A safe attempt has a result on an interpreter that is ready again, or
an error that is explained. -/
theorem cases (h : Safe Good Explained attempt) :
    (∃ a next, attempt = (.ok a, next) ∧ Good a ∧ next.Ready) ∨
      ∃ e next, attempt = (.error (.error e), next) ∧ Explained e ∧ next.error = some e ∧
        ∀ entry ∈ next.scope, entry.2.IsAtom := by
  obtain ⟨result, next⟩ := attempt
  obtain ⟨hlands, hraises, hatoms⟩ := h
  rcases hlands.cases with ⟨a, rfl, hgood⟩ | ⟨e, rfl, hexplained⟩
  · exact .inl ⟨a, next, rfl, hgood, hraises.error_eq_none, hatoms⟩
  · exact .inr ⟨e, next, rfl, hexplained, (hraises e).1 rfl, hatoms⟩

/-- A result is safe if it is good, and its interpreter ready. -/
theorem ok {a : α} {m : Interpreter} (hgood : Good a) (hm : m.Ready) :
    Safe Good Explained (.ok a, m) :=
  ⟨hgood, raises_of_error_eq_none (by simp) hm.error, hm.atoms⟩

/-- An error is safe if it is explained, and the interpreter halted by it. -/
theorem error {e : RuntimeError} {m : Interpreter} (hexplained : Explained e)
    (herror : m.error = some e) (hatoms : ∀ entry ∈ m.scope, entry.2.IsAtom) :
    Safe Good Explained (.error (.error e), m) :=
  ⟨hexplained, fun e' => by simp [herror], hatoms⟩

end Safe

/-- Printing leaves an interpreter ready. -/
theorem Ready.print {m : Interpreter} (hm : m.Ready) (line : String) : (m.print line).Ready :=
  ⟨hm.error, hm.atoms⟩

/-- So does noting a message. -/
theorem Ready.note {m : Interpreter} (hm : m.Ready) (message : Message) :
    (m.note message).Ready :=
  ⟨(note_error m message).trans hm.error, by simpa using hm.atoms⟩

/-- And defining an atom. -/
theorem Ready.define {m : Interpreter} (hm : m.Ready) (name : Name) {value : Value}
    (hvalue : value.IsAtom) : (m.define name value).Ready :=
  ⟨hm.error, Keyed.forall_set hm.atoms name hvalue⟩

variable {m : Interpreter}

/-- An expression of a program is safe. -/
theorem safe_evaluate (hm : m.Ready) (e : Expr) :
    Safe Value.IsAtom e.Explains (m.evaluate e.toNode) := by
  have hlands : Lands _ _ (Lox.evaluate m.scope e.toNode).outcome := e.lands_outcome hm.atoms
  rw [evaluate_eq_settle hm.error, settle]
  rcases hlands.cases with ⟨value, houtcome, hvalue⟩ | ⟨error, houtcome, hexplained⟩ <;>
    rw [houtcome]
  · exact .ok hvalue ⟨by simpa using hm.error, by simpa using hm.atoms⟩
  · exact .error hexplained rfl (by simpa [halt] using hm.atoms)

/-- So is a definition by an atom under a name that is text. -/
theorem safe_declare (hm : m.Ready) (name : String) {value : Value} (hvalue : value.IsAtom)
    (Explained : RuntimeError → Prop) :
    Safe (fun _ => True) Explained (m.declare (.str name) value) := by
  obtain ⟨a, rfl⟩ := hvalue
  have hdefined : (m.define (.text name) (.atom a)).Ready := hm.define _ ⟨a, rfl⟩
  refine .ok trivial ?_
  split
  · exact hdefined.note _
  · exact hdefined

/-- **A statement is safe**: its error is one that its expression
explains. -/
theorem safe_perform (hm : m.Ready) (s : Stmt) :
    Safe Value.AtomIfAny s.value.Explains (m.perform s.toNode) := by
  cases s with
  | expr e =>
    rcases (safe_evaluate hm e).cases with
      ⟨value, next, heval, hvalue, hnext⟩ | ⟨error, next, heval, hexplained, herror, hatoms⟩
    · simp only [Stmt.toNode, perform, heval]
      exact .ok (fun v hv => Option.some.inj hv ▸ hvalue) hnext
    · simp only [Stmt.toNode, perform, heval]
      exact .error hexplained herror hatoms
  | print e =>
    rcases (safe_evaluate hm e).cases with
      ⟨value, next, heval, hvalue, hnext⟩ | ⟨error, next, heval, hexplained, herror, hatoms⟩
    · simp only [Stmt.toNode, perform, heval]
      exact .ok Value.atomIfAny_none (hnext.print _)
    · simp only [Stmt.toNode, perform, heval]
      exact .error hexplained herror hatoms
  | var name e =>
    rcases (safe_evaluate hm e).cases with
      ⟨value, next, heval, hvalue, hnext⟩ | ⟨error, next, heval, hexplained, herror, hatoms⟩
    · rcases (safe_declare hnext name hvalue fun _ => False).cases with
        ⟨_, last, hdeclare, -, hlast⟩ | ⟨_, _, _, hfalse, _⟩
      · simp only [Stmt.toNode, perform, heval, hdeclare]
        exact .ok Value.atomIfAny_none hlast
      · exact hfalse.elim
    · simp only [Stmt.toNode, perform, heval]
      exact .error hexplained herror hatoms

/-- A message about a statement of a program leaves all but the trace as it
is. -/
theorem noteStmt_toNode (m : Interpreter) (message : String → Message) (s : Stmt) :
    m.noteStmt message s.toNode
      = (.ok (), if 1 ≤ m.level then m.note (message s.render) else m) := by
  rw [noteStmt, renderStmt_toNode]
  split <;> rfl

/-- Its execution is safe, too. -/
theorem safe_execute (hm : m.Ready) (s : Stmt) :
    Safe Value.AtomIfAny s.value.Explains (m.execute s.toNode) := by
  rw [execute, halted_eq_false m hm.error, noteStmt_toNode]
  refine safe_perform ?_ s
  split
  · exact hm.note _
  · exact hm

/-- **A run is safe**: its error is one that one of its statements
explains. -/
theorem safe_runFrom (hm : m.Ready) {last : Option Value} (hlast : Value.AtomIfAny last)
    (ss : List Stmt) :
    Safe Value.AtomIfAny (fun e => ∃ s ∈ ss, s.value.Explains e)
      (m.runFrom last (ss.map Stmt.toNode)) := by
  induction ss generalizing m last with
  | nil => exact .ok hlast hm
  | cons s rest ih =>
    rw [List.map_cons, runFrom, halted_eq_false m hm.error, if_neg Bool.false_ne_true]
    rcases (safe_execute hm s).cases with
      ⟨value, next, hexec, hvalue, hnext⟩ | ⟨error, next, hexec, hexplained, herror, hatoms⟩
    · rw [hexec]
      have hlast' : Value.AtomIfAny (if hasValue s.toNode then value else last) := by
        split <;> assumption
      obtain ⟨hlands, hraises, hatoms⟩ := ih hnext hlast'
      refine ⟨hlands.imp (fun _ h => h) fun e he => ?_, hraises, hatoms⟩
      obtain ⟨s', hs', hexplained⟩ := he
      exact ⟨s', List.mem_cons_of_mem s hs', hexplained⟩
    · rw [hexec]
      exact .error ⟨s, List.mem_cons_self, hexplained⟩ herror hatoms

/-! ## Programs of a source -/

/-- **A program that was read from a source never gets stuck**, whichever
frontend has read it and however verbose the run is: on a fresh interpreter
it completes, or it raises an error about a name that it reads or about one
of its operators. -/
theorem completes_or_raises {f : Frontend} {source : String} {ss : List Stmt}
    (h : f.read source = .ok ss) (level : Nat) :
    (∃ value, ((new level).run (ss.map Stmt.toNode)).1 = .ok value) ∨
      ∃ e, ((new level).run (ss.map Stmt.toNode)).1 = .error (.error e) ∧
        e.diagnostic.About (ss.flatMap (·.value.names)) (ss.flatMap Stmt.operators) := by
  have hsafe := safe_runFrom (ready_new level) Value.atomIfAny_none ss
  rcases hsafe.lands.cases with ⟨value, hrun, -⟩ | ⟨e, hrun, s, hs, hexplained⟩
  · exact .inl ⟨value, hrun⟩
  · have habout := hexplained.about (f.apt_of_read h s hs)
    refine .inr ⟨e, hrun, habout.mono (fun name hname => ?_) fun t ht => ?_⟩
    · exact List.mem_flatMap.2 ⟨s, hs, hname⟩
    · exact List.mem_flatMap.2 ⟨s, hs, s.operators_eq ▸ ht⟩

/-- A negated string has an error about the operator on the second line. -/
theorem run_negated_string :
    let ss : List Stmt := [.print (.unary ⟨.minus, "-", 2, .null⟩ (.literal (.string "a")))]
    ({} : Frontend).read "print\n-\"a\";" = .ok ss ∧
      ((∃ value, ((new 3).run (ss.map Stmt.toNode)).1 = .ok value) ∨
        ∃ e, ((new 3).run (ss.map Stmt.toNode)).1 = .error (.error e) ∧
          e.diagnostic.About [] [⟨.minus, "-", 2, .null⟩]) := by
  have hread : ({} : Frontend).read "print\n-\"a\";"
      = .ok [.print (.unary ⟨.minus, "-", 2, .null⟩ (.literal (.string "a")))] := by cbv
  exact ⟨hread, completes_or_raises hread 3⟩

end Interpreter

end Lox
