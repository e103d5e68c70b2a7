import Lox.Proofs.Atom.Debug
import Lox.Proofs.Interpreter.Course
import Lox.Proofs.Text.Line
/-!
# What a run prints

A run prints one line for each print statement that it executes, in order: the
debug form of the value that its expression has where it is executed (`Prints`,
`prints_of_run`). The lines of atoms hold no line feeds and determine the atoms,
so the output of a program tells which values it has printed
(`output_faithful`).
-/

namespace Lox

open Document

/-- Whether a statement prints a line. -/
def Stmt.prints : Stmt → Bool
  | .print _ => true
  | .expr _ | .var _ _ => false

namespace Interpreter

/-- **The values that are printed** by statements that are executed one after
another: one for each print statement, which is its value where it is executed. -/
inductive Prints : Interpreter → List Stmt → List Value → Prop
  | done {m : Interpreter} : m.Prints [] []
  | print {m next : Interpreter} {e : Expr} {rest : List Stmt} {own : Option Value} {v : Value}
      {values : List Value} (value : (m.evaluate e.toNode).1 = .ok v)
      (executed : m.execute (Stmt.print e).toNode = (.ok own, next))
      (others : next.Prints rest values) : m.Prints (.print e :: rest) (v :: values)
  | silent {m next : Interpreter} {s : Stmt} {rest : List Stmt} {own : Option Value}
      {values : List Value} (silent : s.prints = false)
      (executed : m.execute s.toNode = (.ok own, next)) (others : next.Prints rest values) :
      m.Prints (s :: rest) values

/-- One value is printed for each print statement. -/
theorem Prints.length_eq {m : Interpreter} {done : List Stmt} {values : List Value}
    (h : m.Prints done values) : values.length = done.countP Stmt.prints := by
  induction h with
  | done => rfl
  | print _ _ _ ih => rw [List.length_cons, ih, List.countP_cons_of_pos rfl]
  | silent hs _ _ ih => rw [ih, List.countP_cons_of_neg (by simp [hs])]

/-- An executed statement leaves an interpreter ready. -/
theorem Ready.execute {m : Interpreter} (hm : m.Ready) {s : Stmt} {value : Option Value}
    {later : Interpreter} (h : m.execute s.toNode = (.ok value, later)) : later.Ready := by
  have hsafe := safe_execute hm s
  rw [h] at hsafe
  exact ⟨hsafe.raises.error_eq_none, hsafe.atoms⟩

/-- Atoms are printed where all names have atoms for values. -/
theorem Prints.atoms {m : Interpreter} {done : List Stmt} {values : List Value}
    (h : m.Prints done values) (hm : m.Ready) : ∃ atoms : List Atom, values = atoms.map .atom := by
  induction h with
  | done => exact ⟨[], rfl⟩
  | @print m next e rest own v values hvalue hexec _ ih =>
    obtain ⟨atoms, rfl⟩ := ih (hm.execute hexec)
    have hlands := (safe_evaluate hm e).lands
    rw [hvalue] at hlands
    obtain ⟨a, rfl⟩ := hlands
    exact ⟨a :: atoms, rfl⟩
  | silent _ hexec _ ih => exact ih (hm.execute hexec)

/-- **Statements that have been run have printed their values**, each on a line. -/
theorem prints_of_run {m : Interpreter} (hm : m.error = none) {done : List Stmt}
    {value : Option Value} {reached : Interpreter}
    (h : m.run (done.map Stmt.toNode) = (.ok value, reached)) :
    ∃ values, m.Prints done values ∧
      reached.output.toList = m.output.toList ++ values.map Value.debug := by
  -- From the front, as `Prints` goes: the lines of the others come after what the first
  -- statement leaves printed.
  induction done generalizing m value with
  | nil =>
    obtain ⟨-, rfl⟩ := Prod.mk.inj h
    exact ⟨[], .done, (List.append_nil _).symm⟩
  | cons s rest ih =>
    rw [List.map_cons] at h
    rcases hexec : m.execute s.toNode with ⟨failure | own, next⟩
    · rw [run_cons_of_error hm hexec] at h
      cases h
    · rw [run_cons_of_ok hm hexec] at h
      obtain ⟨hvalue, rfl⟩ := Prod.mk.inj h
      obtain ⟨more, hmore, -⟩ := eq_ok_of_map hvalue
      obtain ⟨values, hprints, houtput⟩ :=
        ih (error_eq_none_of_execute hm hexec) (Prod.ext hmore rfl)
      obtain ⟨v, hv, -, hlines⟩ := executed hm hexec
      rw [hlines, List.append_assoc] at houtput
      cases s with
      | print e =>
        exact ⟨v :: values, .print ((evaluate_toNode hm e).trans hv) hexec hprints, houtput⟩
      | expr e => exact ⟨values, .silent rfl hexec hprints, houtput⟩
      | var name e => exact ⟨values, .silent rfl hexec hprints, houtput⟩

/-- **The output of a program is faithful.** A run prints a line for each print
statement that it executes, in order, with the debug form of the value that is
printed. Debug forms of atoms hold no line feeds and are equal only for the same
atoms, so the lines determine the atoms. -/
theorem output_faithful {m : Interpreter} (hm : m.error = none) (ss : List Stmt) :
    (∃ done reached values, m.Course ss done reached ∧ m.Prints done values ∧
      values.length = done.countP Stmt.prints ∧
      m.printedSince (m.run (ss.map Stmt.toNode)).2 = linesText (values.map Value.debug) ∧
      (m.Ready → ∃ atoms : List Atom, values = atoms.map .atom ∧
        (m.printedSince (m.run (ss.map Stmt.toNode)).2).toList.count '\n'
          = done.countP Stmt.prints)) ∧
    (∀ a b : Atom, a.debug = b.debug ↔ a.Same b) ∧
    (∀ a : Atom, '\n' ∉ a.debug.toList) ∧
    ∀ as bs : List Atom, linesText (as.map Atom.debug) = linesText (bs.map Atom.debug) ↔
      List.Forall₂ Atom.Same as bs := by
  have hline : ∀ atoms : List Atom, ∀ line ∈ atoms.map Atom.debug, '\n' ∉ line.toList :=
    fun atoms => List.forall_mem_map.2 fun a _ => a.newline_notMem_debug
  refine ⟨?_, fun a b => Atom.debug_inj.trans Atom.same_iff.symm, Atom.newline_notMem_debug, ?_⟩
  · obtain ⟨done, reached, hcourse⟩ := exists_course hm ss
    obtain ⟨value, hreach⟩ := hcourse.reaches
    obtain ⟨values, hprints, houtput⟩ := prints_of_run hm hreach
    have hprinted : m.printedSince (m.run (ss.map Stmt.toNode)).2
        = linesText (values.map Value.debug) := by
      rw [printedSince, hcourse.output, houtput, ← Array.length_toList, List.drop_left, linesText]
    refine ⟨done, reached, values, hcourse, hprints, hprints.length_eq, hprinted, fun hready => ?_⟩
    obtain ⟨atoms, rfl⟩ := hprints.atoms hready
    refine ⟨atoms, rfl, ?_⟩
    rw [hprinted, List.map_map, ← hprints.length_eq, List.length_map]
    exact (count_newline_linesText (hline atoms)).trans (List.length_map _)
  · intro as bs
    have hsame : Atom.Same = Eq := by
      funext a b
      exact propext Atom.same_iff
    -- No line holds a line feed, so the text can be cut into its lines again.
    rw [linesText_inj (hline as) (hline bs), hsame, List.forall₂_eq_eq_eq]
    exact (List.map_injective_iff.2 fun a b h => Atom.debug_inj.1 h).eq_iff

/-- A string with a line feed, and negative zero, before a declaration that
fails. -/
theorem output_before_failure :
    let ss : List Stmt := [.print (.literal (.string "a\nb")),
      .print (.unary ⟨.minus, "-", 1, .null⟩ (.literal (.number 0))), .var "x" (.var "x")]
    let m := new 0
    ∃ done reached values, m.Course ss done reached ∧ m.Prints done values ∧
      values.length = done.countP Stmt.prints ∧
      m.printedSince (m.run (ss.map Stmt.toNode)).2 = linesText (values.map Value.debug) ∧
      m.printedSince (m.run (ss.map Stmt.toNode)).2
        = "String(\"a\\nb\")\nNumber(-0.0)\n" := by
  intro ss m
  have htext : m.printedSince (m.run (ss.map Stmt.toNode)).2
      = "String(\"a\\nb\")\nNumber(-0.0)\n" := by decide +kernel
  obtain ⟨⟨done, reached, values, hcourse, hprints, hlength, hprinted, -⟩, -⟩ :=
    output_faithful (m := m) rfl ss
  exact ⟨done, reached, values, hcourse, hprints, hlength, hprinted, htext⟩

end Interpreter

end Lox
