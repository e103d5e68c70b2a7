import Lox.Proofs.Grammar.Blame
/-!
# The first fault is exact

The tokens before the first fault of a list begin some program, and with the
token at the fault they begin none (`Program.first_fault_exact`). The
automaton over tokens stops where the reader has its first miss, so both
halves are read off its states: each of them can be completed
(`State.exists_completion`), and a token that one of them does not take
ends every run through it (`not_viable_of_take_none`).
-/

namespace Lox

open Program Grammar

namespace Program

/-- A token list that begins some program. -/
def Viable (ts : List Token) : Prop :=
  ∃ more ss, DerivesProgram (ts ++ more) ss

/-- What begins the beginning of a program begins a program. -/
theorem Viable.of_append {ts us : List Token} (h : Viable (ts ++ us)) : Viable ts := by
  obtain ⟨more, ss, hder⟩ := h
  exact ⟨us ++ more, ss, by rwa [← List.append_assoc]⟩

/-- **The place where a token list goes wrong**: the tokens before it begin a
program, and with the token there they begin none. At the end of the list no
token is wrong, and the list itself is no program. -/
structure GoesWrongAt (ts : List Token) (k : Nat) : Prop where
  viable : Viable (ts.take k)
  wrong : k < ts.length ∧ ¬ Viable (ts.take (k + 1)) ∨
    k = ts.length ∧ ∀ ss, ¬ DerivesProgram ts ss

/-- A list that begins a program goes wrong at its end, if at all. -/
theorem GoesWrongAt.eq_length {ts : List Token} {k : Nat} (h : GoesWrongAt ts k)
    (hts : Viable ts) : k = ts.length := by
  rcases h.wrong with ⟨-, hwrong⟩ | ⟨hend, -⟩
  · rw [← List.take_append_drop (k + 1) ts] at hts
    exact absurd hts.of_append hwrong
  · exact hend

end Program

namespace Grammar

/-! ## Every state can be completed -/

/-- Closing all that can be closed leaves nothing, or a parenthesis that is
open, with less below it. -/
theorem reduce_zero_cases (value : Expr) (stack : List Frame) :
    (∃ e, reduce 0 value stack = (e, [])) ∨
      ∃ e below, reduce 0 value stack = (e, .paren :: below) ∧ below.length < stack.length := by
  induction stack generalizing value with
  | nil => exact .inl ⟨value, rfl⟩
  | cons frame stack ih =>
    have hdeeper (e : Expr) (h : reduce 0 value (frame :: stack) = reduce 0 e stack) :
        (∃ e, reduce 0 value (frame :: stack) = (e, [])) ∨
          ∃ e below, reduce 0 value (frame :: stack) = (e, .paren :: below) ∧
            below.length < (frame :: stack).length := by
      rw [h]
      exact (ih e).imp_right fun ⟨e, below, hreduce, hshort⟩ =>
        ⟨e, below, hreduce, Nat.lt_succ_of_lt hshort⟩
    cases frame with
    | unary operator => exact hdeeper _ rfl
    | binary level left operator =>
      refine hdeeper (.binary left operator value) ?_
      rw [reduce, if_pos (Nat.zero_le level)]
    | paren => exact .inr ⟨value, stack, rfl, Nat.lt_succ_self _⟩

/-- Tokens that complete a run from a state, up to an end token. -/
def State.CompletedBy (state : State) (more : List Token) : Prop :=
  (∀ t ∈ more, t.kind ≠ .eof) ∧
    ∀ eof : Token, eof.kind = .eof → ∃ ss, runTokens state (more ++ [eof]) = .ok ss

/-- A token that is taken comes before those that complete the next state. -/
theorem State.CompletedBy.cons {state next : State} {t : Token} {s : Option Stmt}
    {more : List Token} (htake : state.take t = some (next, s)) (h : next.CompletedBy more) :
    state.CompletedBy (t :: more) := by
  refine ⟨List.forall_mem_cons.2 ⟨fun heof => ?_, h.1⟩, fun eof heof => ?_⟩
  · rw [state.take_of_eof heof] at htake
    cases htake
  · obtain ⟨ss, hrun⟩ := h.2 eof heof
    refine ⟨s.toList ++ ss, ?_⟩
    rw [List.cons_append, runTokens, htake]
    dsimp only
    rw [hrun]
    rfl

/-- A token of a kind that is written in one way only. -/
def plainToken (kind : Kind) (lexeme : String) : Token :=
  ⟨kind, lexeme, 1, .null⟩

/-- Between declarations nothing is left to complete. -/
theorem completedBy_start : State.start.CompletedBy [] := by
  refine ⟨List.forall_mem_nil _, fun eof heof => ⟨[], ?_⟩⟩
  rw [List.nil_append, runTokens, State.take_of_eof heof]
  simp [State.stop, atEnd, heof]

/-- After an operand, what is open is closed, one parenthesis after the
other, and then comes the semicolon. -/
theorem exists_completedBy_operator (value : Expr) (stack : List Frame) (goal : Goal) :
    ∃ more, (State.operator value stack goal).CompletedBy more := by
  rcases reduce_zero_cases value stack with ⟨e, hreduce⟩ | ⟨e, below, hreduce, hshort⟩
  · refine ⟨_, completedBy_start.cons (t := plainToken .semicolon ";") (s := some (goal.stmt e)) ?_⟩
    simp only [State.take, plainToken, hreduce]
    rfl
  · obtain ⟨more, hmore⟩ := exists_completedBy_operator (.grouping e) below goal
    refine ⟨_, .cons (t := plainToken .rightParen ")") (s := none) ?_ hmore⟩
    simp only [State.take, plainToken, hreduce]
    rfl
termination_by stack.length

/-- **Every state can be completed.** -/
theorem State.exists_completion (state : State) : ∃ more, state.CompletedBy more := by
  have hoperand (stack : List Frame) (goal : Goal) :
      ∃ more, (State.operand stack goal).CompletedBy more := by
    obtain ⟨more, hmore⟩ := exists_completedBy_operator (.literal .nil) stack goal
    exact ⟨_, .cons (t := plainToken .kwNil "nil") (s := none) rfl hmore⟩
  have hinitializer (name : String) : ∃ more, (State.initializer name).CompletedBy more :=
    ⟨_, .cons (t := plainToken .semicolon ";") rfl completedBy_start⟩
  cases state with
  | start => exact ⟨[], completedBy_start⟩
  | name =>
    obtain ⟨more, hmore⟩ := hinitializer "a"
    exact ⟨_, .cons (t := plainToken .identifier "a") (s := none) rfl hmore⟩
  | initializer name => exact hinitializer name
  | operand stack goal => exact hoperand stack goal
  | operator value stack goal => exact exists_completedBy_operator value stack goal

/-! ## What reaches a state -/

/-- A list of tokens that completes a run is a program, up to its end
token. -/
theorem runTokens_concat_eq_ok_iff {ts : List Token} (hts : ∀ t ∈ ts, t.kind ≠ .eof) {eof : Token}
    (heof : eof.kind = .eof) {ss : List Stmt} :
    runTokens .start (ts ++ [eof]) = .ok ss ↔ DerivesProgram ts ss :=
  runTokens_eq_ok_iff.trans (parse_concat_eq_ok_iff hts heof)

/-- **What reaches a state begins a program**, since the state can be
completed. -/
theorem viable_of_reaches {used : List Token} {last : State} (h : Reaches .start used last) :
    Viable used := by
  obtain ⟨done, hrun⟩ := h.runTokens_append
  obtain ⟨more, hmore, hcomplete⟩ := last.exists_completion
  obtain ⟨ss, hlast⟩ := hcomplete (.eof 1) rfl
  have hwhole : runTokens .start (used ++ more ++ [.eof 1]) = .ok (done ++ ss) := by
    rw [List.append_assoc, hrun, hlast]
    rfl
  have hne : ∀ t ∈ used ++ more, t.kind ≠ .eof := List.forall_mem_append.2 ⟨h.ne_eof, hmore⟩
  exact ⟨more, _, (runTokens_concat_eq_ok_iff hne rfl).1 hwhole⟩

/-- **A token that a state does not take** makes what reaches the state the
beginning of no program. -/
theorem not_viable_of_take_none {used : List Token} {last : State} {t : Token}
    (h : Reaches .start used last) (htake : last.take t = none) (ht : t.kind ≠ .eof) :
    ¬ Viable (used ++ [t]) := by
  rintro ⟨more, ss, hder⟩
  obtain ⟨done, hrun⟩ := h.runTokens_append
  have hwhole := (runTokens_concat_eq_ok_iff hder.ne_eof (rfl : (Token.eof 1).kind = .eof)).2 hder
  have hstop : last.stop (t :: (more ++ [.eof 1])) = .error (t :: (more ++ [.eof 1])) := by
    cases last <;> simp [State.stop, atEnd, ht]
  rw [List.append_assoc, List.append_assoc, List.singleton_append, hrun, runTokens, htake] at hwhole
  dsimp only at hwhole
  rw [hstop] at hwhole
  cases hwhole

/-- **Where a run fails the list goes wrong.** -/
theorem goesWrongAt_of_error {ts : List Token} (hts : ∀ t ∈ ts, t.kind ≠ .eof) {eof : Token}
    (heof : eof.kind = .eof) {t : Token} {rest : List Token}
    (h : runTokens .start (ts ++ [eof]) = .error (t :: rest)) :
    GoesWrongAt ts (ts.length - rest.length) := by
  obtain ⟨used, last, hlist, hreaches, htake⟩ := exists_reaches_of_error h
  rcases List.eq_nil_or_concat' rest with rfl | ⟨init, final, rfl⟩
  · -- Nothing is left but the end token, and the run has failed there.
    obtain ⟨rfl, -⟩ := List.append_inj' hlist rfl
    refine ⟨by simpa using viable_of_reaches hreaches, .inr ⟨by simp, fun ss hder => ?_⟩⟩
    rw [(runTokens_concat_eq_ok_iff hts heof).2 hder] at h
    cases h
  · -- A token of the list is left, which the state does not take.
    obtain ⟨rfl, -⟩ : ts = used ++ t :: init ∧ [eof] = [final] :=
      List.append_inj' (by simpa using hlist) rfl
    have hplace : (used ++ t :: init).length - (init ++ [final]).length = used.length := by simp
    have htaken : (used ++ t :: init).take (used.length + 1) = used ++ [t] := by
      simp [List.take_append]
    rw [hplace]
    refine ⟨by simpa using viable_of_reaches hreaches, .inl ⟨by simp, ?_⟩⟩
    rw [htaken]
    exact not_viable_of_take_none hreaches (htake t rfl) (hts t (by simp))

end Grammar

namespace Program

/-- **The first fault of a token list is exact.** It is recorded at the place
where the list goes wrong: the tokens before that begin a program, and with the
token there they begin none, unless the place is the end of a list that is no
program itself. So a list that begins a program is blamed at its end. -/
theorem first_fault_exact {single : Bool} {ts : List Token} (hts : ∀ t ∈ ts, t.kind ≠ .eof)
    {eof : Token} (heof : eof.kind = .eof) {faults : List Fault}
    (hparse : parse single (ts ++ [eof]) = .error faults) :
    ∃ first more k t, faults = first :: more ∧ k + first.left = (ts ++ [eof]).length ∧
      (ts ++ [eof])[k]? = some t ∧ first.line = t.line ∧ GoesWrongAt ts k ∧
      (Viable ts → k = ts.length) := by
  obtain ⟨m, more, rfl, hrun⟩ := runTokens_of_parse_error hparse
  obtain ⟨used, t, rest, hlist, hleft⟩ :=
    exists_of_runTokens_error hrun ⟨eof, by simp, heof⟩
  rw [hleft] at hrun
  have hwrong := goesWrongAt_of_error hts heof hrun
  have hlength : ts.length - rest.length = used.length := by
    have := congrArg List.length hlist
    simp only [List.length_append, List.length_cons, List.length_nil] at this
    omega
  rw [hlength] at hwrong
  have hfault : (m.fault (endLine (ts ++ [eof]))).left = rest.length + 1 ∧
      (m.fault (endLine (ts ++ [eof]))).line = t.line := by
    rw [Miss.fault, hleft]
    exact ⟨rfl, rfl⟩
  refine ⟨_, more, used.length, t, rfl, ?_, ?_, hfault.2, hwrong, hwrong.eq_length⟩
  · rw [hfault.1, hlist, List.length_append, List.length_cons]
  · rw [hlist]
    simp

/-- A parenthesis that is still open at the semicolon: that is where the list
goes wrong. -/
theorem first_fault_open_paren :
    let ts := [plainToken .kwPrint "print", plainToken .leftParen "(",
      plainToken .identifier "a", plainToken .semicolon ";"]
    parse false (ts ++ [.eof 1]) = .error [⟨.closingParen, some "';'", 1, 2⟩] ∧
      GoesWrongAt ts 3 := by
  intro ts
  have hparse : parse false (ts ++ [.eof 1]) = .error [⟨.closingParen, some "';'", 1, 2⟩] := by cbv
  obtain ⟨first, more, k, t, hfirst, hk, -, -, hwrong, -⟩ :=
    first_fault_exact (by simp [ts, plainToken]) rfl hparse
  obtain ⟨rfl, -⟩ := List.cons.inj hfirst
  obtain rfl : k = 3 := by simpa [ts] using hk
  exact ⟨hparse, hwrong⟩

end Program

end Lox
