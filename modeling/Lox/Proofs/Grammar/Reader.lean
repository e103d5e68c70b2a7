import Lox.Proofs.Grammar.Tokens
/-!
# The reader and the automaton

The reader of token lists and the automaton over tokens agree. While a
reader of some level is at work, the stack is open for that level, so what
it reads is closed by nothing but what it reads itself
(`simulated_readLevel`). The automaton stops where the reader has its first
miss, and for the rest of the reading there is nothing to compare.
-/

namespace Lox.Grammar

open Program TokenLike

/-- What the misses of a reader say of a run: that it fails at the first of
them, and if there is none, what is to hold of it. -/
def Blames (run : Except (List Token) (List Stmt)) (misses : List (Miss Token))
    (fine : Prop) : Prop :=
  match misses with
  | [] => fine
  | m :: _ => run = .error m.left

/-- What follows from a run without misses. -/
theorem Blames.imp {run : Except (List Token) (List Stmt)} {misses : List (Miss Token)}
    {p q : Prop} (h : Blames run misses p) (hpq : p → q) : Blames run misses q := by
  match misses with
  | [] => exact hpq h
  | _ :: _ => exact h

/-- Later misses count only if there are no earlier ones. -/
theorem Blames.append {run : Except (List Token) (List Stmt)} {misses more : List (Miss Token)}
    {p : Prop} (h : Blames run misses (Blames run more p)) : Blames run (misses ++ more) p := by
  match misses with
  | [] => exact h
  | _ :: _ => exact h

/-- Statements put before those of a run do not change where it fails. -/
theorem Blames.map {run : Except (List Token) (List Stmt)} {misses : List (Miss Token)} {p : Prop}
    (h : Blames run misses p) (f : List Stmt → List Stmt) : Blames (run.map f) misses p := by
  match misses with
  | [] => exact h
  | m :: _ => exact congrArg (Except.map f) (show run = .error m.left from h)

/-- A run that holds an expression after the stack: whatever it has put on
the stack in the meantime is closed before anything of the level. -/
def Holds (run : Except (List Token) (List Stmt)) (level : Nat) (stack : List Frame) (goal : Goal)
    (e : Expr) (rest : List Token) : Prop :=
  ∃ value top, run = runTokens (.operator value top goal) rest ∧
    ∀ l ≤ level, reduce l value top = reduce l e stack

/-- What a reading of a level says of a run. -/
def Simulated (run : Except (List Token) (List Stmt)) (level : Nat) (stack : List Frame)
    (goal : Goal) {start : List Token} : Reading start → Prop
  | .tree tree rest misses _ _ =>
    Blames run misses (Holds run level stack goal (.ofTree tree) rest ∧
      Stops (levels.drop level) rest)
  | .stuck _ misses _ => Blames run misses False

/-- An operand that is taken at once. -/
theorem holds_of_take {level : Nat} {stack : List Frame} {goal : Goal} {t : Token} {e : Expr}
    (h : takeOperand t stack goal = some (.operator e stack goal)) (rest : List Token) :
    Holds (runTokens (.operand stack goal) (t :: rest)) level stack goal e rest := by
  refine ⟨e, stack, runTokens_of_take ?_ rest, fun _ _ => rfl⟩
  rw [State.take, h]
  rfl

/-- Where all levels are closed, what is held is held alone. -/
theorem Holds.reduce_eq {run : Except (List Token) (List Stmt)} {level : Nat} {stack : List Frame}
    {goal : Goal} {e : Expr} {rest : List Token} (hlevel : level < 4) (hopen : Open level stack)
    (h : Holds run level stack goal e rest) :
    ∃ value top, run = runTokens (.operator value top goal) rest ∧
      reduce level value top = (e, stack) := by
  obtain ⟨value, top, hrun, hreduce⟩ := h
  have hclosed := hreduce level (Nat.le_refl level)
  exact ⟨value, top, hrun, hclosed.trans (reduce_of_open hlevel hopen e)⟩

/-- A token that a reader wants is there, or the run stops at its place. -/
theorem blames_expect {state : State} (hstop : ∀ ts, state.stop ts = .error ts) (wanted : Kind)
    {ts : List Token} (after : List Token → Except (List Token) (List Stmt))
    (hfits : ∀ t rest, ts = t :: rest → t.kind = wanted → runTokens state ts = after rest)
    (hmiss : ∀ t ∈ ts.head?, t.kind ≠ wanted → state.take t = none) (expected : Expectation) :
    Blames (runTokens state ts) (expect wanted expected ts).2
      (runTokens state ts = after (expect wanted expected ts).1) := by
  rcases expect_cases wanted expected ts with ⟨t, ht, hts, hnone⟩ | ⟨hsome, ht⟩
  · rw [hnone]
    exact hfits t _ hts ht
  · rw [hsome]
    exact (runTokens_of_take_none fun t hmem => hmiss t hmem (ht t hmem)).trans (hstop ts)

/-- After an operand in parentheses only the closing one fits, if no
operator does. -/
theorem blames_closingParen {value e : Expr} {top stack : List Frame} {goal : Goal}
    {ts : List Token} (hstops : Stops levels ts)
    (hreduce : reduce 0 value top = (e, .paren :: stack)) :
    Blames (runTokens (.operator value top goal) ts) (expect .rightParen .closingParen ts).2
      (runTokens (.operator value top goal) ts
        = runTokens (.operator (.grouping e) stack goal)
          (expect .rightParen .closingParen ts).1) := by
  refine blames_expect (fun _ => rfl) _ (runTokens (.operator (.grouping e) stack goal)) ?_ ?_ _
  · rintro t rest rfl ht
    refine runTokens_of_take ?_ rest
    rw [State.take, levelOf?_of_stops hstops (Option.mem_some_self t)]
    simp only [ht, hreduce]
  · intro t hmem ht
    rw [State.take, levelOf?_of_stops hstops hmem, hreduce]
    dsimp only
    split <;> simp_all

/-- After a whole operand only a semicolon fits, if no operator does. -/
theorem blames_semicolon {value e : Expr} {top : List Frame} {goal : Goal} {ts : List Token}
    (hstops : Stops levels ts) (hreduce : reduce 0 value top = (e, [])) (expected : Expectation) :
    Blames (runTokens (.operator value top goal) ts) (expect .semicolon expected ts).2
      (runTokens (.operator value top goal) ts
        = (runTokens .start (expect .semicolon expected ts).1).map (goal.stmt e :: ·)) := by
  refine blames_expect (fun _ => rfl) _ (fun rest => (runTokens .start rest).map (goal.stmt e :: ·))
    ?_ ?_ _
  · rintro t rest rfl ht
    refine runTokens_of_take_some ?_ rest
    rw [State.take, levelOf?_of_stops hstops (Option.mem_some_self t)]
    simp only [ht, hreduce]
  · intro t hmem ht
    rw [State.take, levelOf?_of_stops hstops hmem, hreduce]
    dsimp only
    split <;> simp_all

mutual

/-- A level is read as the automaton runs with a stack open for it. -/
theorem simulated_readLevel (level : Nat) (ops : List Operators) (hops : levels.drop level = ops)
    (ts : List Token) (stack : List Frame) (goal : Goal) (hopen : Open level stack) :
    Simulated (runTokens (.operand stack goal) ts) level stack goal (readLevel ops ts) := by
  match ops with
  | [] =>
    rw [readLevel]
    exact simulated_readUnary level hops ts stack goal
  | op :: ops =>
    have hnext : levels.drop (level + 1) = ops := by rw [← List.tail_drop, hops, List.tail_cons]
    have ih := simulated_readLevel (level + 1) ops hnext ts stack goal hopen.succ
    rw [readLevel]
    split
    · next left rest misses suffix shorter heq =>
      rw [heq] at ih
      -- What is closed on the way to a tighter level is closed on the way to this one.
      refine simulated_readChain level op ops hops ts left rest misses suffix shorter stack goal
        hopen _ (ih.imp ?_)
      rintro ⟨⟨value, top, hrun, hreduce⟩, hstops⟩
      rw [hnext] at hstops
      exact ⟨⟨value, top, hrun, fun l hl => hreduce l (Nat.le_succ_of_le hl)⟩, hstops⟩
    · next rest misses suffix heq =>
      rw [heq] at ih
      exact ih
termination_by (ts.length, ops.length + 2)

/-- A chain is read as the automaton goes on from what it holds. -/
theorem simulated_readChain (level : Nat) (op : Operators) (ops : List Operators)
    (hops : levels.drop level = op :: ops) (start : List Token) (left : Program.Tree Token)
    (ts : List Token) (misses : List (Miss Token)) (suffix : ts <:+ start)
    (shorter : ts.length < start.length) (stack : List Frame) (goal : Goal)
    (hopen : Open level stack) (run : Except (List Token) (List Stmt))
    (h : Blames run misses (Holds run level stack goal (.ofTree left) ts ∧ Stops ops ts)) :
    Simulated run level stack goal (readChain op ops start left ts misses suffix shorter) := by
  have hnext : levels.drop (level + 1) = ops := by rw [← List.tail_drop, hops, List.tail_cons]
  match ts with
  | [] =>
    rw [readChain]
    exact h.imp fun hleft => ⟨hleft.1, fun t ht => absurd ht (by simp)⟩
  | t :: rest =>
    rw [readChain]
    split
    · next hop =>
      have hlevel := lt_of_drop_levels hops
      have hright := simulated_readLevel (level + 1) ops hnext rest
        (.binary level (.ofTree left) t :: stack) goal (Nat.lt_succ_self level)
      -- The operator closes what is held, and the right operand starts above it.
      have hstep : Holds run level stack goal (.ofTree left) (t :: rest) →
          run = runTokens (.operand (.binary level (.ofTree left) t :: stack) goal) rest := by
        intro hleft
        obtain ⟨value, top, hrun, hreduce⟩ := hleft.reduce_eq hlevel hopen
        rw [hrun]
        refine runTokens_of_take ?_ rest
        rw [State.take, levelOf?_of_mem hops (k := t.kind) hop]
        simp only [hreduce]
      split
      · next right after more suffix' shorter' heq =>
        rw [heq] at hright
        refine simulated_readChain level op ops hops start _ after _ _ _ stack goal hopen run
          (Blames.append (h.imp ?_))
        rintro ⟨hleft, -⟩
        rw [hstep hleft]
        refine hright.imp ?_
        rintro ⟨⟨value, top, hrun, hreduce⟩, hstops⟩
        rw [hnext] at hstops
        -- Closing for this level or a looser one closes the operator over both operands.
        refine ⟨⟨value, top, hrun, fun l hl => ?_⟩, hstops⟩
        rw [hreduce l (Nat.le_succ_of_le hl), reduce, if_pos hl]
        rfl
      · next after more suffix' heq =>
        rw [heq] at hright
        refine Blames.append (h.imp fun hleft => ?_)
        rw [hstep hleft.1]
        exact hright
    · next hop =>
      -- The chain ends at a token that joins neither this level nor a tighter one.
      refine h.imp fun hleft => ⟨hleft.1, ?_⟩
      rw [hops]
      intro u hu o ho
      rcases List.mem_cons.1 ho with rfl | ho
      · obtain rfl : t = u := by simpa using hu
        simpa using hop
      · exact hleft.2 u hu o ho
termination_by (ts.length, 0)

/-- A unary operator waits on the stack for its operand. -/
theorem simulated_readUnary (level : Nat) (hlevel : levels.drop level = []) (ts : List Token)
    (stack : List Frame) (goal : Goal) :
    Simulated (runTokens (.operand stack goal) ts) level stack goal (readUnary ts) := by
  match ts with
  | [] =>
    rw [readUnary]
    exact simulated_readPrimary level hlevel [] (by simp) stack goal
  | t :: rest =>
    rw [readUnary]
    split
    · next hop =>
      have ih := simulated_readUnary level hlevel rest (.unary t :: stack) goal
      have hstep : runTokens (.operand stack goal) (t :: rest)
          = runTokens (.operand (.unary t :: stack) goal) rest := by
        have hsign : kind t = .bang ∨ kind t = .minus := by simpa [isUnary] using hop
        refine runTokens_of_take ?_ rest
        rcases hsign with h | h <;> simp [State.take, takeOperand, show t.kind = _ from h]
      rw [hstep]
      split
      · next operand after misses suffix shorter heq =>
        rw [heq] at ih
        refine ih.imp ?_
        rintro ⟨⟨value, top, hrun, hreduce⟩, hstops⟩
        exact ⟨⟨value, top, hrun, fun l hl => by rw [hreduce l hl, reduce]; rfl⟩, hstops⟩
      · next after misses suffix heq =>
        rw [heq] at ih
        exact ih
    · next hop =>
      refine simulated_readPrimary level hlevel (t :: rest) (fun u hu => ?_) stack goal
      obtain rfl : t = u := by simpa using hu
      simpa using hop
termination_by (ts.length, 1)

/-- A primary is taken at once, or is what the automaton holds at a closing
parenthesis. -/
theorem simulated_readPrimary (level : Nat) (hlevel : levels.drop level = []) (ts : List Token)
    (hts : ∀ t ∈ ts.head?, isUnary t.kind = false) (stack : List Frame) (goal : Goal) :
    Simulated (runTokens (.operand stack goal) ts) level stack goal (readPrimary ts) := by
  have hstops : ∀ rest, Stops (levels.drop level) rest := fun rest t ht op hop => by
    simp [hlevel] at hop
  match ts with
  | [] =>
    rw [readPrimary]
    rfl
  | t :: rest =>
    have leaf : ∀ tree : Program.Tree Token,
        takeOperand t stack goal = some (.operator (.ofTree tree) stack goal) →
        Simulated (runTokens (.operand stack goal) (t :: rest)) level stack goal
          (.tree tree rest [] (List.suffix_cons t rest) (Nat.lt_succ_self _)) :=
      fun tree h => ⟨holds_of_take h rest, hstops rest⟩
    rw [readPrimary]
    dsimp only
    split
    · next h => exact leaf _ (by simp [takeOperand, show t.kind = _ from h, Expr.ofTree])
    · next h => exact leaf _ (by simp [takeOperand, show t.kind = _ from h, Expr.ofTree])
    · next h => exact leaf _ (by simp [takeOperand, show t.kind = _ from h, Expr.ofTree])
    · next h => exact leaf _ (by simp [takeOperand, show t.kind = _ from h, Expr.ofTree])
    · next h => exact leaf _ (by simp [takeOperand, show t.kind = _ from h, Expr.ofTree])
    · next h => exact leaf _ (by simp [takeOperand, show t.kind = _ from h, Expr.ofTree])
    · next hopen =>
      have ih := simulated_readLevel 0 levels rfl rest (.paren :: stack) goal trivial
      have hstep : runTokens (.operand stack goal) (t :: rest)
          = runTokens (.operand (.paren :: stack) goal) rest := by
        refine runTokens_of_take ?_ rest
        simp [State.take, takeOperand, show t.kind = _ from hopen]
      rw [hstep]
      split
      · next inner after misses suffix shorter heq =>
        rw [heq] at ih
        -- Nothing is closed past the parenthesis that is open below the operand.
        refine Blames.append (ih.imp ?_)
        rintro ⟨hinner, hafter⟩
        obtain ⟨value, top, hrun, hreduce⟩ := hinner.reduce_eq (by decide) (by trivial)
        rw [hrun]
        refine (blames_closingParen hafter hreduce).imp fun hclose => ⟨?_, hstops _⟩
        exact ⟨_, _, hclose, fun _ _ => rfl⟩
      · next after misses suffix heq =>
        rw [heq] at ih
        exact ih
    · refine runTokens_of_take_none fun u hu => ?_
      obtain rfl : t = u := by simpa using hu
      have hfirst := hts t rfl
      rw [State.take, takeOperand]
      split <;> simp_all [isUnary]
termination_by (ts.length, 0)

end

/-! ## Declarations -/

/-- What a declaration says of a run: without misses, that its statement is
the first that the run completes. -/
def Completes (run : Except (List Token) (List Stmt)) {start : List Token} (step : Step start) :
    Prop :=
  Blames run step.misses (∃ clause, step.clause = some clause ∧
    run = (runTokens .start step.rest).map (Stmt.ofClause clause :: ·))

/-- An expression and a semicolon complete the statement that they are for. -/
theorem completes_readClause {run : Except (List Token) (List Stmt)} {start : List Token}
    (expected : Expectation) {make : Program.Tree Token → Clause Token} (goal : Goal)
    (hmake : ∀ tree, Stmt.ofClause (make tree) = goal.stmt (.ofTree tree)) {ts : List Token}
    {misses : List (Miss Token)} {suffix : ts <:+ start}
    (h : Blames run misses (run = runTokens (.operand [] goal) ts)) :
    Completes run (readClause expected make ts misses suffix) := by
  have hread := simulated_readLevel 0 levels rfl ts [] goal trivial
  rw [readClause, readExpr]
  split
  · next tree rest more suffix' shorter heq =>
    rw [heq] at hread
    refine Blames.append (Blames.append (h.imp fun hrun => ?_))
    rw [hrun]
    refine hread.imp ?_
    rintro ⟨htree, hrest⟩
    obtain ⟨value, top, hheld, hreduce⟩ := htree.reduce_eq (by decide) (by trivial)
    rw [hheld]
    refine (blames_semicolon hrest hreduce expected).imp fun hclosed => ⟨_, rfl, ?_⟩
    rw [hclosed, hmake]
    rfl
  · next rest more suffix' heq =>
    rw [heq] at hread
    refine Blames.append (h.imp fun hrun => ?_)
    rw [hrun]
    exact hread.imp False.elim

/-- A declaration ends after its name, or goes on with its initializer. -/
theorem completes_readInitializer {run : Except (List Token) (List Stmt)} {start : List Token}
    {name : Option Token} {ts : List Token} {misses : List (Miss Token)} {suffix : ts <:+ start}
    {shorter : ts.length < start.length}
    (h : Blames run misses (∃ t, name = some t ∧ run = runTokens (.initializer t.lexeme) ts)) :
    Completes run (readInitializer name ts misses suffix shorter) := by
  -- Without an initializer only a semicolon fits, and the name is declared as nil.
  have hbare : (∀ t ∈ ts.head?, t.kind ≠ .equal) → Completes run
      (Step.finish .semicolonAfterDeclaration (.var name none) ts misses suffix shorter) := by
    intro hts
    refine Blames.append (h.imp ?_)
    rintro ⟨t, rfl, rfl⟩
    refine (blames_expect (fun _ => rfl) .semicolon (fun rest =>
      (runTokens .start rest).map (.var t.lexeme (.literal .nil) :: ·)) ?_ ?_ _).imp
      fun hclosed => ⟨_, rfl, hclosed⟩
    · rintro u rest rfl hu
      refine runTokens_of_take_some ?_ rest
      simp [State.take, hu]
    · intro u hmem hu
      have := hts u hmem
      rw [State.take]
      split <;> simp_all
  match ts with
  | [] =>
    rw [readInitializer]
    exact hbare (by simp)
  | t :: rest =>
    rw [readInitializer]
    split
    · next hequal =>
      refine completes_readClause _ (.var ((name.map Token.lexeme).getD "")) (fun _ => rfl) ?_
      refine h.imp ?_
      rintro ⟨u, rfl, rfl⟩
      exact runTokens_of_take (by simp [State.take, show t.kind = _ from hequal]) rest
    · next hequal =>
      refine hbare fun u hu => ?_
      obtain rfl : t = u := by simpa using hu
      exact hequal

/-- **A declaration is read as the automaton completes it.** -/
theorem completes_readStep (ts : List Token) (hts : atEnd ts = false) :
    Completes (runTokens .start ts) (readStep ts) := by
  match ts with
  | [] => exact absurd hts (by decide)
  | t :: rest =>
    rw [readStep]
    split
    · next hword =>
      have hstep : runTokens .start (t :: rest) = runTokens .name rest :=
        runTokens_of_take (by simp [State.take, show t.kind = _ from hword]) rest
      rw [readVar, hstep]
      refine completes_readInitializer ?_
      rcases expect_cases .identifier .variableName rest with ⟨name, hname, hrest, hnone⟩ |
        ⟨hsome, hmiss⟩
      · rw [hnone]
        refine ⟨name, by rw [hrest]; simp [show name.kind = _ from hname], ?_⟩
        exact (congrArg (runTokens .name) hrest).trans
          (runTokens_of_take (by simp [State.take, show name.kind = _ from hname]) _)
      · rw [hsome]
        refine runTokens_of_take_none fun u hu => ?_
        have := hmiss u hu
        rw [State.take]
        split <;> simp_all
    · next hword =>
      have hstep : runTokens .start (t :: rest) = runTokens (.operand [] .print) rest :=
        runTokens_of_take (by simp [State.take, show t.kind = _ from hword]) rest
      exact completes_readClause _ .print (fun _ => rfl) hstep
    · next hvar hprint =>
      have hne : t.kind ≠ .eof := by simpa [atEnd] using hts
      have hvar : t.kind ≠ .kwVar := hvar
      have hprint : t.kind ≠ .kwPrint := hprint
      refine completes_readClause _ .expr (fun _ => rfl) ?_
      -- An expression starts a statement as it starts an operand.
      have htake : State.start.take t = (State.operand [] .expr).take t := by
        simp only [State.take]
      have hstop : State.start.stop (t :: rest) = (State.operand [] .expr).stop (t :: rest) := by
        simp [State.stop, atEnd, hne]
      show runTokens .start (t :: rest) = runTokens (.operand [] .expr) (t :: rest)
      rw [runTokens, runTokens, htake, hstop]

/-- **The first miss of a list is where the automaton stops**, and without
misses it completes the statements that are read. -/
theorem blames_entries (ts : List Token) :
    Blames (runTokens .start ts) ((entries ts).flatMap Entry.misses)
      (runTokens .start ts = .ok (((entries ts).filterMap Entry.clause).map Stmt.ofClause)) := by
  fun_induction entries ts with
  | case1 ts hend =>
    have hnone : ∀ t ∈ ts.head?, State.start.take t = none := by
      intro t ht
      obtain ⟨rest, rfl⟩ : ∃ rest, ts = t :: rest := List.head?_eq_some_iff.1 ht
      exact State.take_of_eof (by simpa [atEnd] using hend) .start
    show runTokens .start ts = .ok []
    rw [runTokens_of_take_none hnone, State.stop, if_pos hend]
  | case2 ts hend step ih =>
    rw [List.flatMap_cons]
    refine Blames.append ((completes_readStep ts (by simpa using hend)).imp ?_)
    rintro ⟨clause, hclause, hrun⟩
    rw [hrun]
    refine (ih.map _).imp fun hrest => ?_
    rw [hrest, List.filterMap_cons, hclause]
    rfl

/-- **The automaton completes exactly the programs that are read.** -/
theorem runTokens_eq_ok_iff {ts : List Token} {ss : List Stmt} :
    runTokens .start ts = .ok ss ↔ Program.parse false ts = .ok ss := by
  have hread := blames_entries ts
  rw [parse_eq_ok_iff]
  generalize (entries ts).flatMap Entry.misses = misses at hread
  match misses with
  | [] =>
    rw [show runTokens .start ts = _ from hread, Except.ok.injEq]
    exact (and_iff_right rfl).symm
  | m :: _ =>
    rw [show runTokens .start ts = .error m.left from hread]
    simp

end Lox.Grammar
