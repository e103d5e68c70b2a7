import Lox.Proofs.Program.Lines
/-!
# Reading is natural

Of a token the reader looks at nothing but the kind. Tokens that are replaced
by others of the same kinds are read the same way, with the others in the
places of the first (`entries_map`), and what is reported of a miss are the
lexeme and the line of the token there (`Miss.fault_map`).
-/

namespace Lox

namespace Program

open TokenLike

/-! ## Other tokens in the same places -/

section

variable {τ σ : Type} (g : τ → σ)

/-- A tree over other tokens. -/
def Tree.map : Tree τ → Tree σ
  | binary left operator right => binary left.map (g operator) right.map
  | unary operator operand => unary (g operator) operand.map
  | grouping inner => grouping inner.map
  | constant value => constant value
  | number t => number (g t)
  | string t => string (g t)
  | name t => name (g t)

/-- A clause over other tokens. -/
def Clause.map : Clause τ → Clause σ
  | expr tree => expr (tree.map g)
  | print tree => print (tree.map g)
  | var name initializer => var (name.map g) (initializer.map (Tree.map g))

/-- A miss among other tokens. -/
def Miss.map (m : Miss τ) : Miss σ :=
  ⟨m.expected, m.left.map g⟩

/-- A declaration among other tokens. -/
def Entry.map (e : Entry τ) : Entry σ :=
  ⟨e.clause.map (Clause.map g), e.rest.map g, e.misses.map (Miss.map g)⟩

variable [TokenLike τ] [TokenLike σ]

/-- A reading of other tokens. -/
def Reading.map {start : List τ} : Reading start → Reading (start.map g)
  | .tree expr rest misses suffix shorter =>
    .tree (expr.map g) (rest.map g) (misses.map (Miss.map g)) (suffix.map g)
      (by simpa using shorter)
  | .stuck rest misses suffix => .stuck (rest.map g) (misses.map (Miss.map g)) (suffix.map g)

end

variable {τ σ : Type} [TokenLike τ] [TokenLike σ] {g : τ → σ}

/-- A wanted token is missed where another one of its kind would be. -/
theorem expect_map (hg : ∀ t, kind (g t) = kind t) (wanted : Kind) (expected : Expectation)
    (ts : List τ) :
    expect wanted expected (ts.map g)
      = ((expect wanted expected ts).1.map g, (expect wanted expected ts).2.map (Miss.map g)) := by
  cases ts with
  | nil => rfl
  | cons t rest =>
    simp only [List.map_cons, expect, hg]
    split <;> rfl

/-! ## Expressions -/

mutual

/-- Levels of other tokens are read the same way. -/
theorem readLevel_map (hg : ∀ t, kind (g t) = kind t) (ops : List Operators) (ts : List τ) :
    readLevel ops (ts.map g) = (readLevel ops ts).map g := by
  match ops with
  | [] =>
    rw [readLevel, readLevel]
    exact readUnary_map hg ts
  | op :: ops =>
    have ih := readLevel_map hg ops ts
    rw [readLevel, readLevel, ih]
    rcases readLevel ops ts with ⟨left, rest, misses, suffix, shorter⟩ | ⟨rest, misses, suffix⟩
    · exact readChain_map hg op ops ts left rest misses suffix shorter _ rfl _ _
    · rfl
termination_by (ts.length, ops.length + 2)

/-- So is a chain of them. The misses before it are given by an equation, since
those of its operands are appended to them. -/
theorem readChain_map (hg : ∀ t, kind (g t) = kind t) (op : Operators) (ops : List Operators)
    (start : List τ) (left : Tree τ) (ts : List τ) (misses : List (Miss τ)) (suffix : ts <:+ start)
    (shorter : ts.length < start.length) (misses' : List (Miss σ))
    (hmisses : misses' = misses.map (Miss.map g)) (suffix' : ts.map g <:+ start.map g)
    (shorter' : (ts.map g).length < (start.map g).length) :
    readChain op ops (start.map g) (left.map g) (ts.map g) misses' suffix' shorter'
      = (readChain op ops start left ts misses suffix shorter).map g := by
  subst hmisses
  match ts with
  | [] =>
    rw [readChain]
    exact readChain.eq_1 ..
  | t :: rest =>
    have ih := readLevel_map hg ops rest
    rw [readChain]
    refine (readChain.eq_2 ..).trans ?_
    rw [hg, ih]
    split
    · rcases readLevel ops rest with
        ⟨right, after, more, suffix₁, shorter₁⟩ | ⟨after, more, suffix₁⟩
      · exact readChain_map hg op ops start (.binary left t right) after _ _ _ _
          List.map_append.symm _ _
      · simp only [Reading.map, List.map_append]
    · rfl
termination_by (ts.length, 0)

/-- So is an operand with the unary operators before it. -/
theorem readUnary_map (hg : ∀ t, kind (g t) = kind t) (ts : List τ) :
    readUnary (ts.map g) = (readUnary ts).map g := by
  match ts with
  | [] =>
    rw [readUnary]
    exact (readUnary.eq_1).trans (readPrimary_map hg [])
  | t :: rest =>
    have ih := readUnary_map hg rest
    rw [readUnary]
    refine (readUnary.eq_2 ..).trans ?_
    rw [hg, ih]
    split
    · rcases readUnary rest with
        ⟨operand, after, misses, suffix, shorter⟩ | ⟨after, misses, suffix⟩ <;> rfl
    · exact readPrimary_map hg (t :: rest)
termination_by (ts.length, 1)

/-- So is a primary. -/
theorem readPrimary_map (hg : ∀ t, kind (g t) = kind t) (ts : List τ) :
    readPrimary (ts.map g) = (readPrimary ts).map g := by
  match ts with
  | [] =>
    rw [readPrimary]
    exact readPrimary.eq_1
  | t :: rest =>
    have ih := readLevel_map hg levels rest
    rw [readPrimary]
    refine (readPrimary.eq_2 ..).trans ?_
    dsimp only
    rw [hg, ih]
    split
    case h_7 =>
      rcases readLevel levels rest with
        ⟨inner, after, misses, suffix, shorter⟩ | ⟨after, misses, suffix⟩
      · simp only [Reading.map, Tree.map, expect_map hg, List.map_append]
      · rfl
    all_goals rfl
termination_by (ts.length, 0)

end

/-! ## Declarations -/

/-- A list of other tokens is at its end where the first is. -/
theorem atEnd_map (hg : ∀ t, kind (g t) = kind t) (ts : List τ) :
    atEnd (ts.map g) = atEnd ts := by
  cases ts with
  | nil => rfl
  | cons t rest => simp only [List.map_cons, atEnd, hg]

/-- And reading resumes there. -/
theorem resume_map (hg : ∀ t, kind (g t) = kind t) (ts : List τ) :
    resume (ts.map g) = (resume ts).map g := by
  fun_induction resume ts with
  | case1 => rfl
  | case2 t rest hend =>
    rw [List.map_cons, resume.eq_def]
    simp [hg, hend]
  | case3 t rest hend hsemi =>
    rw [List.map_cons, resume.eq_def]
    simp [hg, hsemi]
  | case4 t hend hsemi => simp [resume, hg, hend, hsemi]
  | case5 t hend hsemi next after hstart => simp [resume, hg, hend, hsemi, hstart]
  | case6 t hend hsemi next after hstart ih =>
    rw [← ih]
    simp [resume, hg, hend, hsemi, hstart]

/-- What is kept of a step. -/
def Step.entry {start : List τ} (step : Step start) : Entry τ :=
  ⟨step.clause, step.rest, step.misses⟩

/-- A declaration of other tokens that is given up. -/
theorem entry_giveUp_map (hg : ∀ t, kind (g t) = kind t) {start : List τ} {start' : List σ}
    (rest : List τ) (misses : List (Miss τ)) (suffix : rest <:+ start)
    (suffix' : rest.map g <:+ start') :
    (Step.giveUp (rest.map g) (misses.map (Miss.map g)) suffix').entry
      = (Step.giveUp rest misses suffix).entry.map g := by
  simp only [Step.entry, Step.giveUp, Entry.map, resume_map hg, Option.map_none]

/-- And one that is finished. -/
theorem entry_finish_map (hg : ∀ t, kind (g t) = kind t) {start : List τ} {start' : List σ}
    (expected : Expectation) (clause : Clause τ) (ts : List τ) (misses : List (Miss τ))
    (suffix : ts <:+ start) (shorter : ts.length < start.length) (suffix' : ts.map g <:+ start')
    (shorter' : (ts.map g).length < start'.length) :
    (Step.finish expected (clause.map g) (ts.map g) (misses.map (Miss.map g)) suffix' shorter').entry
      = (Step.finish expected clause ts misses suffix shorter).entry.map g := by
  simp only [Step.entry, Step.finish, Entry.map, expect_map hg, List.map_append, Option.map_some]

/-- A clause of other tokens is read the same way. -/
theorem entry_readClause_map (hg : ∀ t, kind (g t) = kind t) {start : List τ} {start' : List σ}
    (expected : Expectation) {make : Tree τ → Clause τ} {make' : Tree σ → Clause σ}
    (hmake : ∀ tree, make' (tree.map g) = (make tree).map g) (ts : List τ)
    (misses : List (Miss τ)) (suffix : ts <:+ start) (suffix' : ts.map g <:+ start') :
    (readClause expected make' (ts.map g) (misses.map (Miss.map g)) suffix').entry
      = (readClause expected make ts misses suffix).entry.map g := by
  have hread : readExpr (ts.map g) = (readExpr ts).map g := readLevel_map hg levels ts
  rw [readClause, readClause, hread]
  rcases readExpr ts with ⟨expr, rest, more, suffix₁, shorter₁⟩ | ⟨rest, more, suffix₁⟩
  · simp only [Reading.map, hmake, ← List.map_append]
    exact entry_finish_map hg expected (make expr) rest (misses ++ more) _ _ _ _
  · simp only [Reading.map, ← List.map_append]
    exact entry_giveUp_map hg rest (misses ++ more) _ _

/-- So is an initializer. -/
theorem entry_readInitializer_map (hg : ∀ t, kind (g t) = kind t) {start : List τ}
    {start' : List σ} (name : Option τ) (ts : List τ) (misses : List (Miss τ))
    (suffix : ts <:+ start) (shorter : ts.length < start.length) (suffix' : ts.map g <:+ start')
    (shorter' : (ts.map g).length < start'.length) :
    (readInitializer (name.map g) (ts.map g) (misses.map (Miss.map g)) suffix' shorter').entry
      = (readInitializer name ts misses suffix shorter).entry.map g := by
  have hbare := entry_finish_map hg .semicolonAfterDeclaration (.var name none) ts misses suffix
    shorter suffix' shorter'
  match ts with
  | [] => exact hbare
  | t :: rest =>
    change (if kind (g t) = .equal then _ else _ : Step start').entry
      = (if kind t = .equal then _ else _ : Step start).entry.map g
    rw [hg]
    split
    · exact entry_readClause_map hg .semicolonAfterDeclaration (fun _ => rfl) rest misses _ _
    · exact hbare

/-- So is a declaration of a name. -/
theorem entry_readVar_map (hg : ∀ t, kind (g t) = kind t) {start : List τ} {start' : List σ}
    (ts : List τ) (suffix : ts <:+ start) (shorter : ts.length < start.length)
    (suffix' : ts.map g <:+ start') (shorter' : (ts.map g).length < start'.length) :
    (readVar (ts.map g) suffix' shorter').entry = (readVar ts suffix shorter).entry.map g := by
  have hname : (ts.map g).head?.filter (fun t => kind t == .identifier)
      = (ts.head?.filter fun t => kind t == .identifier).map g := by
    cases ts with
    | nil => rfl
    | cons t rest => simp [Option.filter_some, hg, apply_ite (Option.map g)]
  simp only [readVar, expect_map hg, hname]
  exact entry_readInitializer_map hg _ _ _ _ _ _ _

/-- So is any declaration. -/
theorem entry_readStep_map (hg : ∀ t, kind (g t) = kind t) (ts : List τ) :
    (readStep (ts.map g)).entry = (readStep ts).entry.map g := by
  match ts with
  | [] =>
    exact entry_readClause_map hg .semicolonAfterExpression (fun _ => rfl) [] []
      (List.suffix_refl _) (List.suffix_refl _)
  | t :: rest =>
    rw [List.map_cons, readStep, readStep, hg]
    split
    · exact entry_readVar_map hg rest _ _ _ _
    · exact entry_readClause_map hg .semicolonAfterValue (fun _ => rfl) rest [] _ _
    · exact entry_readClause_map hg .semicolonAfterExpression (fun _ => rfl) (t :: rest) [] _ _

/-- **Other tokens of the same kinds are read the same way.** -/
theorem entries_map (hg : ∀ t, kind (g t) = kind t) (ts : List τ) :
    entries (ts.map g) = (entries ts).map (Entry.map g) := by
  fun_induction entries ts with
  | case1 ts hend =>
    rw [entries, dif_pos (by rwa [atEnd_map hg])]
    rfl
  | case2 ts hend step ih =>
    have hstep : (readStep (ts.map g)).entry = step.entry.map g := entry_readStep_map hg ts
    rw [entries, dif_neg (by rwa [atEnd_map hg]), List.map_cons, ← ih]
    exact congrArg₂ List.cons hstep (congrArg (fun e : Entry σ => entries e.rest) hstep)

/-! ## Programs -/

/-- A fault on another line. -/
def Fault.mapLine (f : Int → Int) (fault : Fault) : Fault :=
  { fault with line := f fault.line }

/-- What is reported of a miss are the lexeme and the line of the token
there. -/
theorem Miss.fault_map {f : Int → Int} (hg : ∀ t, kind (g t) = kind t)
    (hline : ∀ t, line (g t) = f (line t)) (hshown : ∀ t, shown (g t) = shown t) (endLine : Int)
    (m : Miss τ) : (m.map g).fault (f endLine) = (m.fault endLine).mapLine f := by
  obtain ⟨expected, left⟩ := m
  cases left with
  | nil => rfl
  | cons t rest =>
    simp only [Miss.map, Miss.fault, Fault.mapLine, List.map_cons, hg, hline, hshown,
      List.length_map]

/-- **Other tokens of the same kinds and lexemes are the same program**, or they
have the same faults, each on the line of the other token. -/
theorem readAll_map {f : Int → Int} (hg : ∀ t, kind (g t) = kind t)
    (hline : ∀ t, line (g t) = f (line t)) (hshown : ∀ t, shown (g t) = shown t) (single : Bool)
    (ts : List τ) :
    readAll single (ts.map g)
      = ((readAll single ts).map (List.map (Clause.map g))).mapError
          (List.map (Fault.mapLine f)) := by
  obtain rfl | hne := eq_or_ne ts []
  · -- The line of an empty list is no token's, but an empty list has no faults either.
    simp [readAll, entries, atEnd, Except.map, Except.mapError]
  have hend : endLine (ts.map g) = f (endLine ts) := by
    obtain ⟨init, t, rfl⟩ := (List.eq_nil_or_concat' ts).resolve_left hne
    simp [endLine, hline]
  have hread : (if single then (entries (ts.map g)).take 1 else entries (ts.map g))
      = (if single then (entries ts).take 1 else entries ts).map (Entry.map g) := by
    rw [entries_map hg]
    split <;> simp
  simp only [readAll, hread, hend]
  generalize (if single then (entries ts).take 1 else entries ts) = read
  have hmisses : (read.map (Entry.map g)).flatMap Entry.misses
      = (read.flatMap Entry.misses).map (Miss.map g) := by
    rw [List.flatMap_map, List.map_flatMap]
    rfl
  rw [hmisses]
  rcases read.flatMap Entry.misses with _ | ⟨m, more⟩
  · have hclauses : (read.map (Entry.map g)).filterMap Entry.clause
        = (read.filterMap Entry.clause).map (Clause.map g) := by
      rw [List.filterMap_map, List.map_filterMap]
      rfl
    exact congrArg Except.ok hclauses
  · have hfaults : ((m :: more).map (Miss.map g)).map (Miss.fault (f (endLine ts)))
        = ((m :: more).map (Miss.fault (endLine ts))).map (Fault.mapLine f) := by
      rw [List.map_map, List.map_map]
      exact List.map_congr_left fun m _ => m.fault_map hg hline hshown _
    exact congrArg Except.error hfaults

end Program

/-- The expression of a tree over moved tokens. -/
theorem Expr.ofTree_map (f : Int → Int) (tree : Program.Tree Token) :
    ofTree (tree.map (Token.mapLine f)) = (ofTree tree).mapLine f := by
  induction tree with
  | binary left operator right ihl ihr => simp only [Program.Tree.map, ofTree, mapLine, ihl, ihr]
  | unary operator operand ih => simp only [Program.Tree.map, ofTree, mapLine, ih]
  | grouping inner ih => simp only [Program.Tree.map, ofTree, mapLine, ih]
  | constant | number | string | name => rfl

/-- And the statement of a clause. -/
theorem Stmt.ofClause_map (f : Int → Int) (clause : Program.Clause Token) :
    ofClause (clause.map (Token.mapLine f)) = (ofClause clause).mapLine f := by
  cases clause with
  | expr tree => exact congrArg expr (Expr.ofTree_map f tree)
  | print tree => exact congrArg print (Expr.ofTree_map f tree)
  | var name initializer =>
    cases name <;> cases initializer <;>
      simp [Program.Clause.map, ofClause, mapLine, Expr.ofTree_map, Token.mapLine, Expr.mapLine]

/-- **Moved tokens are the same program**, with its operators moved, or they have
the same faults, moved as well. -/
theorem Program.parse_mapLine (f : Int → Int) (single : Bool) (ts : List Token) :
    parse single (ts.map (Token.mapLine f))
      = ((parse single ts).map (List.map (Stmt.mapLine f))).mapError
          (List.map (Fault.mapLine f)) := by
  have hread := readAll_map (g := Token.mapLine f) (fun _ => rfl) (fun _ => rfl) (fun _ => rfl)
    single ts
  rw [parse, hread, parse]
  rcases readAll single ts with faults | clauses
  · rfl
  · have hstmts : (clauses.map (Clause.map (Token.mapLine f))).map Stmt.ofClause
        = (clauses.map Stmt.ofClause).map (Stmt.mapLine f) := by
      rw [List.map_map, List.map_map]
      exact List.map_congr_left fun clause _ => Stmt.ofClause_map f clause
    exact congrArg Except.ok hstmts

end Lox
