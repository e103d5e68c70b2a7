import Lox.Proofs.Interpreter.Course
/-!
# The last definition wins

The names that a fresh interpreter has after some statements are those that the
statements declare, and each has the value that the initializer of its last
declaration had when that was executed (`Binds`). A declaration adds its name or
takes the place of the older one, and no other statement changes a name, so this
holds at every point of a run (`binds_of_run`). Whether a run meets a name that
is not defined is then a matter of the statements before it alone
(`last_definition_wins`).
-/

namespace Lox

open Document

/-! ## Declarations -/

/-- The name that a statement declares. -/
def Stmt.declares : Stmt → Option String
  | .var name _ => some name
  | .expr _ | .print _ => none

/-- The names that statements declare, in order. -/
def declaredNames (ss : List Stmt) : List String :=
  ss.filterMap Stmt.declares

/-- The last declaration of a name among some statements is the one with the
given initializer, after the given ones. -/
def LastDeclared (name : String) (ss before : List Stmt) (initializer : Expr) : Prop :=
  ∃ after, ss = before ++ .var name initializer :: after ∧ name ∉ declaredNames after

theorem declaredNames_concat (ss : List Stmt) (s : Stmt) :
    declaredNames (ss ++ [s]) = declaredNames ss ++ s.declares.toList := by
  rw [declaredNames, List.filterMap_append]
  cases s <;> rfl

/-- An element of a list with one more at its end is that one or one before it. -/
theorem concat_eq_append_cons {α : Type} {l before after : List α} {a b : α} :
    l ++ [a] = before ++ b :: after ↔ (after = [] ∧ before = l ∧ b = a) ∨
      ∃ rest, after = rest ++ [a] ∧ l = before ++ b :: rest := by
  constructor
  · intro h
    obtain rfl | ⟨rest, last, rfl⟩ := after.eq_nil_or_concat'
    · obtain ⟨rfl, hlast⟩ := List.append_inj' h rfl
      exact .inl ⟨rfl, rfl, (List.cons.inj hlast).1.symm⟩
    · rw [← List.cons_append, ← List.append_assoc] at h
      obtain ⟨rfl, hlast⟩ := List.append_inj' h rfl
      exact .inr ⟨rest, by rw [(List.cons.inj hlast).1], rfl⟩
  · rintro (⟨rfl, rfl, rfl⟩ | ⟨rest, rfl, rfl⟩)
    · rfl
    · simp

/-- One more declaration of a name is the last one. -/
theorem lastDeclared_concat_var {name : String} {ss before : List Stmt} {e e' : Expr} :
    LastDeclared name (ss ++ [.var name e]) before e' ↔ before = ss ∧ e' = e := by
  simp only [LastDeclared, concat_eq_append_cons]
  constructor
  · rintro ⟨after, ⟨rfl, rfl, hlast⟩ | ⟨rest, rfl, -⟩, hafter⟩
    · exact ⟨rfl, (Stmt.var.inj hlast).2⟩
    · simp [declaredNames_concat, Stmt.declares] at hafter
  · rintro ⟨rfl, rfl⟩
    exact ⟨[], .inl ⟨rfl, rfl, rfl⟩, List.not_mem_nil⟩

/-- Any other statement leaves the last declaration of a name where it is. -/
theorem lastDeclared_concat {name : String} {ss before : List Stmt} {s : Stmt} {e : Expr}
    (hs : s.declares ≠ some name) :
    LastDeclared name (ss ++ [s]) before e ↔ LastDeclared name ss before e := by
  simp only [LastDeclared, concat_eq_append_cons]
  constructor
  · rintro ⟨after, ⟨-, -, rfl⟩ | ⟨rest, rfl, hss⟩, hafter⟩
    · exact absurd rfl hs
    · rw [declaredNames_concat, List.mem_append, not_or] at hafter
      exact ⟨rest, hss, hafter.1⟩
  · rintro ⟨rest, hss, hrest⟩
    refine ⟨rest ++ [s], .inr ⟨rest, rfl, hss⟩, ?_⟩
    rw [declaredNames_concat, List.mem_append, not_or, Option.mem_toList]
    exact ⟨hrest, hs⟩

/-! ## Names that are not defined -/

/-- An evaluation that ends at a name that is not defined ends at one that the
expression reads. -/
theorem Expr.undefined_of_outcome {scope : Keyed Name Value}
    (hscope : ∀ entry ∈ scope, entry.2.IsAtom) {e : Expr} {name : String}
    (h : e.outcome scope = .error (.error (.undefinedVariable name))) :
    name ∈ e.names ∧ scope.get? (.text name) = none := by
  constructor
  · have hlands := e.lands_outcome hscope
    rw [h] at hlands
    cases hlands with
    | name hname => exact hname
  · induction e with
    | literal value => cases h
    | var x =>
      rw [outcome_var, lookup] at h
      simp only [Name.ofJson?] at h
      split at h
      · cases h
      · next hnone =>
        cases h
        exact hnone
    | grouping inner ih => exact ih h
    | unary operator operand ih =>
      rw [outcome_unary] at h
      rcases (operand.lands_outcome hscope).cases with ⟨_, hvalue, a, rfl⟩ | ⟨error, herror, -⟩
      · -- An operator that does not apply has another error.
        rw [hvalue] at h
        have hlands := operator.toOperator.lands_applyUnary a
        rw [show operator.toOperator.applyUnary (.atom a) = _ from h] at hlands
        obtain ⟨_, ⟨⟩, -⟩ := hlands
      · rw [herror] at h
        exact ih (herror.trans h)
    | binary left operator right ihl ihr =>
      rw [outcome_binary] at h
      rcases (left.lands_outcome hscope).cases with ⟨_, hleft, a, rfl⟩ | ⟨error, herror, -⟩
      · rw [hleft] at h
        rcases (right.lands_outcome hscope).cases with ⟨_, hright, b, rfl⟩ | ⟨error, herror, -⟩
        · rw [hright] at h
          have hlands := operator.toOperator.lands_applyBinary a b
          rw [show operator.toOperator.applyBinary (.atom a) (.atom b) = _ from h] at hlands
          obtain ⟨_, ⟨⟩, -⟩ := hlands
        · rw [herror] at h
          exact ihr (herror.trans h)
      · rw [herror] at h
        exact ihl (herror.trans h)

/-- A name that is not defined has no value. -/
theorem Expr.outcome_var_of_none {scope : Keyed Name Value} {name : String}
    (h : scope.get? (.text name) = none) :
    (var name).outcome scope = .error (.error (.undefinedVariable name)) := by
  rw [outcome_var, lookup]
  simp only [Name.ofJson?, h]
  rfl

/-- A name is the same as one that is text only if it is that text. -/
theorem Name.text_beq_iff {name : Name} {x : String} :
    (Name.text x == name) = true ↔ name = .text x := by
  rw [show (Name.text x == name) = (Name.Key.text x == name.key) from rfl, beq_iff_eq]
  cases name <;> simp [Name.key, eq_comm]

/-- Keys contain a text exactly if it is one of them. -/
theorem contains_text {keys : List Name} {x : String} :
    keys.contains (.text x) = true ↔ .text x ∈ keys := by
  rw [List.contains_eq_any_beq, List.any_eq_true]
  simp only [Name.text_beq_iff, exists_eq_right]

/-! ## At every point of a run -/

namespace Interpreter

/-- **The names after some statements**, run on a fresh interpreter of the given
level: those that the statements declare. -/
structure Binds (level : Nat) (done : List Stmt) (scope : Keyed Name Value) : Prop where
  names : ∀ name, name ∈ scope.keys ↔ ∃ x ∈ declaredNames done, name = .text x
  nodup : scope.keys.Nodup
  /-- A name has the value that its last initializer had where it was executed. -/
  last : ∀ x v, scope.get? (.text x) = some v ↔
    ∃ before initializer value reached, LastDeclared x done before initializer ∧
      (new level).run (before.map Stmt.toNode) = (.ok value, reached) ∧
      (reached.evaluate initializer.toNode).1 = .ok v

variable {level : Nat} {done : List Stmt} {scope : Keyed Name Value}

/-- A name is not defined exactly if no statement declares it. -/
theorem Binds.get?_eq_none_iff (h : Binds level done scope) {x : String} :
    scope.get? (.text x) = none ↔ x ∉ declaredNames done := by
  rw [← Option.not_isSome_iff_eq_none, ← Keyed.contains_keys, contains_text, h.names]
  simp

/-- Without statements no name is defined. -/
theorem binds_nil (level : Nat) : Binds level [] [] where
  names := by simp [declaredNames, Keyed.keys]
  nodup := List.nodup_nil
  last x v := by simp [Keyed.get?, LastDeclared]

/-- **A declaration binds its name** to the value of its initializer, and leaves
the other names as they are. -/
theorem Binds.concat_var (h : Binds level done scope) {name : String} {e : Expr}
    {value : Option Value} {reached : Interpreter} {v : Value}
    (hrun : (new level).run (done.map Stmt.toNode) = (.ok value, reached))
    (hvalue : (reached.evaluate e.toNode).1 = .ok v) :
    Binds level (done ++ [.var name e]) (scope.set (.text name) v) where
  names x := by
    rw [Keyed.keys_set, declaredNames_concat]
    split
    · next hold =>
      -- The name is among those that have been declared.
      obtain ⟨y, hy, hname⟩ := (h.names _).1 (contains_text.1 hold)
      obtain rfl := Name.text.inj hname
      rw [h.names]
      simp only [List.mem_append, Stmt.declares, Option.mem_toList]
      constructor
      · rintro ⟨z, hz, rfl⟩
        exact ⟨z, .inl hz, rfl⟩
      · rintro ⟨z, hz | hz, rfl⟩
        · exact ⟨z, hz, rfl⟩
        · obtain rfl := Option.some.inj hz
          exact ⟨_, hy, rfl⟩
    · rw [List.mem_append, h.names]
      simp [Stmt.declares, or_and_right, exists_or]
  nodup := by
    rw [Keyed.keys_set]
    split
    · exact h.nodup
    · next hnew =>
      rw [contains_text] at hnew
      exact List.nodup_append.2 ⟨h.nodup, List.nodup_singleton _, by
        rintro x hx _ hy rfl
        exact hnew (List.mem_singleton.1 hy ▸ hx)⟩
  last x w := by
    by_cases hx : x = name
    · subst hx
      simp only [Keyed.get?_set, lastDeclared_concat_var]
      constructor
      · rintro ⟨⟩
        exact ⟨done, e, value, reached, ⟨rfl, rfl⟩, hrun, hvalue⟩
      · rintro ⟨_, _, _, _, ⟨rfl, rfl⟩, hrun', hvalue'⟩
        -- Runs are functions, so the initializer had its value where it is evaluated now.
        obtain ⟨-, rfl⟩ := Prod.mk.inj (hrun.symm.trans hrun')
        exact congrArg some (Except.ok.inj (hvalue.symm.trans hvalue'))
    · -- For another name, the value and the last declaration are both the old ones.
      have hne : (Name.text name == Name.text x) = false := by simpa using Ne.symm hx
      have hs : (Stmt.var name e).declares ≠ some x := by simpa [Stmt.declares] using Ne.symm hx
      rw [Keyed.get?_set_ne hne, h.last]
      simp only [lastDeclared_concat hs]

/-- **Any other statement** leaves all names as they are. -/
theorem Binds.concat (h : Binds level done scope) {s : Stmt} (hs : s.declares = none) :
    Binds level (done ++ [s]) scope where
  names name := by rw [h.names, declaredNames_concat, hs, Option.toList_none, List.append_nil]
  nodup := h.nodup
  last x v := by
    have hne : s.declares ≠ some x := by simp [hs]
    rw [h.last]
    simp only [lastDeclared_concat hne]

/-- A run of a program leaves an interpreter ready, unless it fails. -/
theorem ready_of_run {m : Interpreter} (hm : m.Ready) {ss : List Stmt} {value : Option Value}
    {later : Interpreter} (h : m.run (ss.map Stmt.toNode) = (.ok value, later)) : later.Ready := by
  have hsafe := safe_runFrom hm Value.atomIfAny_none ss
  rw [show m.runFrom none (ss.map Stmt.toNode) = _ from h] at hsafe
  exact ⟨hsafe.raises.error_eq_none, hsafe.atoms⟩

/-- **Statements that have been run have bound their names.** -/
theorem binds_of_run {value : Option Value} {reached : Interpreter}
    (h : (new level).run (done.map Stmt.toNode) = (.ok value, reached)) :
    Binds level done reached.scope := by
  -- From the end: the latest statement is the one that may take over a name, and it
  -- is executed where the statements before it have led.
  induction done using List.reverseRecOn generalizing value reached with
  | nil =>
    obtain ⟨-, rfl⟩ := Prod.mk.inj h
    exact binds_nil level
  | append_singleton done s ih =>
    obtain ⟨own, earlier, last, hdone, herror, hexec⟩ := run_concat_ok rfl h
    have hbinds := ih hdone
    have hready := ready_of_run (ready_new level) hdone
    obtain ⟨v, hvalue, hscope, -⟩ := executed herror hexec
    have hatom := s.value.lands_outcome hready.atoms
    rw [hvalue] at hatom
    rw [hscope hatom]
    cases s with
    | var name e => exact hbinds.concat_var hdone ((evaluate_toNode herror e).trans hvalue)
    | expr e => exact hbinds.concat rfl
    | print e => exact hbinds.concat rfl

/-! ## Runs -/

/-- A run that meets a name that is not defined stops at a statement that reads
the name, and no statement before it declares it. -/
theorem Course.undefined {ss : List Stmt} {reached : Interpreter}
    (h : (new level).Course ss done reached) {x : String}
    (hrun : ((new level).run (ss.map Stmt.toNode)).1 = .error (.error (.undefinedVariable x))) :
    ∃ s rest, ss = done ++ s :: rest ∧ x ∈ s.value.names ∧ x ∉ declaredNames done := by
  obtain ⟨value, hreach⟩ := h.reaches
  have hready := ready_of_run (ready_new level) hreach
  rcases h.ends with ⟨-, value, hok⟩ | ⟨s, rest, failure, hss, hfails, houtcome⟩
  · cases hok.symm.trans hrun
  · obtain rfl := Except.error.inj (hfails.symm.trans hrun)
    obtain ⟨hname, hnone⟩ := Expr.undefined_of_outcome hready.atoms houtcome
    exact ⟨s, rest, hss, hname, (binds_of_run hreach).get?_eq_none_iff.1 hnone⟩

/-- A declaration whose initializer is its own name fails where that is new, and
the name stays undefined. -/
theorem run_self_declaration {ss : List Stmt} {value : Option Value} {reached : Interpreter}
    (hrun : (new level).run (ss.map Stmt.toNode) = (.ok value, reached)) {x : String}
    (hx : x ∉ declaredNames ss) (after : List Stmt) :
    ∃ later, (new level).run ((ss ++ Stmt.var x (.var x) :: after).map Stmt.toNode)
        = (.error (.error (.undefinedVariable x)), later) ∧ later.scope.get? (.text x) = none := by
  -- The initializer is evaluated before the name is bound.
  have hnone := (binds_of_run hrun).get?_eq_none_iff.2 hx
  have hreached := error_eq_none_of_run rfl hrun
  rcases hexec : reached.execute (Stmt.var x (.var x)).toNode with ⟨failure | own, later⟩
  · have houtcome := outcome_of_execute_error hreached hexec
    obtain rfl : .error (.undefinedVariable x) = failure :=
      Except.error.inj ((Expr.outcome_var_of_none hnone).symm.trans houtcome)
    refine ⟨later, ?_, by rw [(execute_keeps_of_error hexec).1, hnone]⟩
    rw [List.map_append, List.map_cons]
    exact (run_eq_error_iff rfl).2 ⟨_, _, _, value, reached, rfl, hrun, hexec⟩
  · obtain ⟨v, hvalue, -⟩ := executed hreached hexec
    cases (Expr.outcome_var_of_none hnone).symm.trans hvalue

/-- **The last definition wins**, in every run of a program on a fresh
interpreter. Some statements are executed, and after each of them, and at the
end, the names are those that have been declared, each with the value of its last
initializer. A run that meets a name that is not defined stops at a statement
that reads it and has no declaration of it before; if all names that a statement
reads are declared before, no run does. A declaration of a new name by itself
fails, and leaves it undefined. -/
theorem last_definition_wins (level : Nat) (ss : List Stmt) :
    (∃ done reached, (new level).Course ss done reached ∧
      (∀ before, before <+: done → ∃ value earlier,
        (new level).run (before.map Stmt.toNode) = (.ok value, earlier) ∧
          Binds level before earlier.scope) ∧
      Binds level done ((new level).run (ss.map Stmt.toNode)).2.scope ∧
      ∀ x, ((new level).run (ss.map Stmt.toNode)).1 = .error (.error (.undefinedVariable x)) →
        ∃ s rest, ss = done ++ s :: rest ∧ x ∈ s.value.names ∧ x ∉ declaredNames done) ∧
    ((∀ i (hi : i < ss.length), ∀ x ∈ ss[i].value.names, x ∈ declaredNames (ss.take i)) →
      ∀ x, ((new level).run (ss.map Stmt.toNode)).1 ≠ .error (.error (.undefinedVariable x))) ∧
    ∀ value reached x after, (new level).run (ss.map Stmt.toNode) = (.ok value, reached) →
      x ∉ declaredNames ss →
        ∃ later, (new level).run ((ss ++ Stmt.var x (.var x) :: after).map Stmt.toNode)
            = (.error (.error (.undefinedVariable x)), later) ∧
          later.scope.get? (.text x) = none := by
  obtain ⟨done, reached, hcourse⟩ := exists_course (m := new level) rfl ss
  obtain ⟨value, hreach⟩ := hcourse.reaches
  refine ⟨⟨done, reached, hcourse, ?_, ?_, fun x => hcourse.undefined⟩, ?_, ?_⟩
  · rintro before ⟨rest, rfl⟩
    rw [List.map_append] at hreach
    obtain ⟨own, earlier, _, hbefore, -⟩ := run_ok_of_append rfl hreach
    exact ⟨own, earlier, hbefore, binds_of_run hbefore⟩
  · rw [hcourse.scope]
    exact binds_of_run hreach
  · intro hdeclared x hrun
    obtain ⟨s, rest, rfl, hx, hnew⟩ := hcourse.undefined hrun
    exact hnew (by simpa using hdeclared done.length (by simp) x (by simpa using hx))
  · exact fun value reached x after hrun hx => run_self_declaration hrun hx after

/-- A name that is declared anew by itself, and one that is not. -/
theorem run_redeclared :
    let ss : List Stmt := [.var "a" (.literal (.bool true)),
      .var "a" (.unary ⟨.bang, "!", 1, .null⟩ (.var "a")), .print (.var "a")]
    (∀ x, ((new 1).run (ss.map Stmt.toNode)).1 ≠ .error (.error (.undefinedVariable x))) ∧
      ∃ later, (new 1).run ((ss ++ [Stmt.var "b" (.var "b")]).map Stmt.toNode)
          = (.error (.error (.undefinedVariable "b")), later) ∧
        later.scope.get? (.text "b") = none := by
  intro ss
  obtain ⟨-, hnever, hself⟩ := last_definition_wins 1 ss
  exact ⟨hnever (by decide), hself none _ "b" [] rfl (by decide)⟩

end Interpreter

end Lox
