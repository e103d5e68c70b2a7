import Lox.Proofs.Program.Operators
/-!
# Operators and their operands

In a tree that a document holds any token may be an operator. In a program
that was read from a source an operator with two operands is one that joins
two, and an operator with one is one that stands before its operand
(`Frontend.apt_of_read`): the reader takes operators by their kind, and
where the grammar shifts one, its terminal stands for nothing else.
-/

namespace Lox

open Program

/-- Whether an operator stands between two operands. -/
def Program.isBinary (k : Kind) : Bool :=
  levels.any fun op => op k

/-- Every operator of an expression applies to as many operands as it
has. -/
def Expr.Apt : Expr → Prop
  | binary left operator right => isBinary operator.kind = true ∧ left.Apt ∧ right.Apt
  | unary operator operand => isUnary operator.kind = true ∧ operand.Apt
  | grouping inner => inner.Apt
  | literal _ | var _ => True

/-- The expression of a statement. -/
def Stmt.value : Stmt → Expr
  | expr e | print e | var _ e => e

/-! ## Programs from token lists -/

namespace Program

/-- What joins a layer stands between two operands. -/
theorem Layer.Joins.isBinary {layer : Layer} {k : Kind} (h : layer.Joins k) :
    isBinary k = true := by
  cases layer with
  | equality | comparison | term | factor => cases k <;> first | rfl | simp [Joins] at h
  | unary | primary => exact h.elim

/-- The operators of a derived expression apply to what they are derived
with. -/
theorem Derives.apt {layer : Layer} {ts : List Token} {e : Expr} (h : Derives layer ts e) :
    e.Apt := by
  induction h with
  | operand _ _ ih => exact ih
  | binary _ hop _ _ ihl ihr => exact ⟨hop.isBinary, ihl, ihr⟩
  | unary hop _ ih => exact ⟨by simpa [isUnary] using hop, ih⟩
  | kwTrue | kwFalse | kwNil | number | string | name => trivial
  | grouping _ _ _ ih => exact ih

/-- So do those of a derived declaration. -/
theorem DerivesStmt.apt {ts : List Token} {s : Stmt} (h : DerivesStmt ts s) : s.value.Apt := by
  cases h with
  | bare => trivial
  | var _ _ _ hder | print _ hder | expr hder => exact hder.apt

end Program

/-! ## Programs by the grammar -/

namespace Grammar

/-- A terminal of fixed texts matches one of them. -/
theorem Terminal.Matches.mem_words {terminal : Terminal} {lexeme : List Char}
    (h : terminal.Matches lexeme) (hwords : terminal.words ≠ []) :
    String.ofList lexeme ∈ terminal.words := by
  obtain ⟨text, hsize, rfl⟩ := h
  rw [Terminal.matchLength_eq_matchFirst hwords] at hsize ⊢
  have hsome : ∃ n, (terminal.words.map (matchText · text)).find? (· != 0) = some n := by
    by_contra hnone
    refine hsize ?_
    rw [matchFirst, Option.eq_none_iff_forall_ne_some.2 fun n hn => hnone ⟨n, hn⟩]
    rfl
  obtain ⟨n, hn⟩ := hsome
  obtain ⟨word, hword, rfl⟩ := List.mem_map.1 (List.mem_of_find?_eq_some hn)
  have hpos : matchText word text ≠ 0 := by simpa using List.find?_some hn
  rw [matchFirst, hn, Option.getD_some]
  unfold matchText at hpos ⊢
  split at hpos
  · next hprefix =>
    rw [if_pos hprefix, List.prefix_iff_eq_take.1 (List.isPrefixOf_iff_prefix.1 hprefix) |>.symm,
      String.ofList_toList]
    exact hword
  · exact absurd rfl hpos

/-- A terminal between operands is a binary operator. -/
theorem isBinary_operatorToken {terminal : Terminal} {lexeme : List Char} {level : Nat}
    (h : terminal.Matches lexeme) (hlevel : level? terminal = some level) (line : Int) :
    isBinary (operatorToken lexeme line).kind = true := by
  have hall : ∀ word ∈ terminal.words, isBinary ((Kind.signs.lookup word).getD .eof) = true := by
    cases terminal <;> first | decide | cases hlevel
  refine hall _ (h.mem_words ?_)
  cases terminal <;> first | exact List.cons_ne_nil _ _ | cases hlevel

/-- A terminal before an operand is a unary operator. -/
theorem isUnary_operatorToken {lexeme : List Char} (h : Terminal.unaryOp.Matches lexeme)
    (line : Int) : isUnary (operatorToken lexeme line).kind = true := by
  have hall : ∀ word ∈ Terminal.unaryOp.words,
      isUnary ((Kind.signs.lookup word).getD .eof) = true := by decide
  exact hall _ (h.mem_words (List.cons_ne_nil _ _))

/-- What is open waits for an operand of an operator that takes one. -/
def Frame.Apt : Frame → Prop
  | unary operator => isUnary operator.kind = true
  | binary _ left operator => isBinary operator.kind = true ∧ left.Apt
  | paren => True

/-- All that a state holds is apt. -/
def State.Apt : State → Prop
  | operand stack _ => ∀ frame ∈ stack, frame.Apt
  | operator value stack _ => value.Apt ∧ ∀ frame ∈ stack, frame.Apt
  | start | name | initializer _ => True

/-- Closing what is open keeps it apt. -/
theorem apt_reduce (level : Nat) {value : Expr} {stack : List Frame} (hvalue : value.Apt)
    (hstack : ∀ frame ∈ stack, frame.Apt) :
    (reduce level value stack).1.Apt ∧ ∀ frame ∈ (reduce level value stack).2, frame.Apt := by
  fun_induction reduce level value stack with
  | case1 value operator stack ih =>
    obtain ⟨hop, hstack⟩ := List.forall_mem_cons.1 hstack
    exact ih ⟨hop, hvalue⟩ hstack
  | case2 value l left operator stack _ ih =>
    obtain ⟨⟨hop, hleft⟩, hstack⟩ := List.forall_mem_cons.1 hstack
    exact ih ⟨hop, hleft, hvalue⟩ hstack
  | case3 | case4 => exact ⟨hvalue, hstack⟩

/-- An operand is apt, and so is an operator before it. -/
theorem apt_shiftOperand {stack : List Frame} {goal : Goal} {lexeme : List Char} {line : Int}
    {terminal : Terminal} {next : State} (hstack : ∀ frame ∈ stack, frame.Apt)
    (hmatch : terminal.Matches lexeme)
    (h : shiftOperand stack goal lexeme line terminal = some next) : next.Apt := by
  cases terminal <;> cases h
  case unaryOp => exact List.forall_mem_cons.2 ⟨isUnary_operatorToken hmatch line, hstack⟩
  case leftParen => exact List.forall_mem_cons.2 ⟨trivial, hstack⟩
  all_goals exact ⟨trivial, hstack⟩

/-- **A shift keeps a state apt**, and completes an apt statement. -/
theorem apt_shift {state next : State} {stmt : Option Stmt} {lexeme : List Char} {line : Int}
    {terminal : Terminal} (hstate : state.Apt) (hmatch : terminal.Matches lexeme)
    (h : state.shift lexeme line terminal = some (next, stmt)) :
    next.Apt ∧ ∀ s ∈ stmt, s.value.Apt := by
  cases State.shifted_of_shift h with
  | declaration | declared => exact ⟨trivial, by simp⟩
  | print | initializer => exact ⟨List.forall_mem_nil _, by simp⟩
  | uninitialized => exact ⟨trivial, by simp [Stmt.value, Expr.Apt]⟩
  | expression hnext => exact ⟨apt_shiftOperand (List.forall_mem_nil _) hmatch hnext, by simp⟩
  | operand hnext => exact ⟨apt_shiftOperand hstate hmatch hnext, by simp⟩
  | @binary _ level _ _ _ _ _ hlevel hreduce =>
    obtain ⟨hleft, hrest⟩ := apt_reduce level hstate.1 hstate.2
    rw [hreduce] at hleft hrest
    exact ⟨List.forall_mem_cons.2 ⟨⟨isBinary_operatorToken hmatch hlevel line, hleft⟩, hrest⟩,
      by simp⟩
  | closed hreduce =>
    obtain ⟨hinner, hrest⟩ := apt_reduce 0 hstate.1 hstate.2
    rw [hreduce] at hinner hrest
    exact ⟨⟨hinner, (List.forall_mem_cons.1 hrest).2⟩, by simp⟩
  | @completed _ _ _ goal hreduce =>
    have hwhole := (apt_reduce 0 hstate.1 hstate.2).1
    rw [hreduce] at hwhole
    refine ⟨trivial, fun s hs => ?_⟩
    obtain rfl := Option.some.inj hs
    cases goal <;> exact hwhole

end Grammar

/-! ## Both frontends -/

/-- **The operators of an accepted program apply to their operands**,
however it is read. -/
theorem Frontend.apt_of_read {f : Frontend} {source : String} {ss : List Stmt}
    (h : f.read source = .ok ss) : ∀ s ∈ ss, s.value.Apt := by
  cases hgrammar : f.grammar with
  | true =>
    simp only [Frontend.read, hgrammar, if_true] at h
    exact Grammar.forall_of_run Grammar.State.Apt (fun hstate _ _ => Grammar.apt_shift hstate)
      .start 1 1 source.toList le_rfl le_rfl trivial (eq_ok_of_mapError h)
  | false =>
    simp only [Frontend.read, hgrammar, Bool.false_eq_true, if_false] at h
    cases htokens : f.tokens source with
    | error => simp [htokens, bind, Except.bind] at h
    | ok ts =>
      rw [htokens] at h
      intro s hs
      obtain ⟨used, hder, -⟩ := Program.derived_of_parse (eq_ok_of_mapError h) s hs
      exact hder.apt

end Lox
