import Lox.Proofs.Program.Derivation
/-!
# The reader is exact

A token list is read as a program without a fault exactly if it derives
that program. One direction is an induction on the reader
(`derived_readExpr`), in which a chain carries the derivation of what it
has read so far. The other is an induction on derivations
(`Derives.goesOn`): a derivation that recurs on the left is read by a
chain, so what is shown of it is what the chain still has to do.
-/

namespace Lox.Program

open TokenLike

/-- The levels of operators that are read in a layer. -/
def Layer.levels : Layer → List Operators
  | equality => Program.levels
  | comparison => Program.levels.drop 1
  | term => Program.levels.drop 2
  | factor => Program.levels.drop 3
  | unary => []
  | primary => []

/-- The first level of a layer holds the operators that join it, and the
others are those of the next layer. -/
theorem Layer.levels_cons {layer : Layer} {op : Operators} {ops : List Operators}
    (h : layer.levels = op :: ops) :
    ∃ tighter, layer.next? = some tighter ∧ tighter.levels = ops ∧ tighter ≠ .primary ∧
      ∀ k, op k = true ↔ layer.Joins k := by
  cases layer with
  | unary | primary => simp [levels] at h
  | equality | comparison | term | factor =>
    obtain ⟨rfl, rfl⟩ := List.cons.inj h
    refine ⟨_, rfl, rfl, by simp, fun k => ?_⟩
    cases k <;> simp [Joins]

/-- A wanted token that is not missed is there. -/
theorem expect_cases {τ : Type} [TokenLike τ] (wanted : Kind) (expected : Expectation)
    (ts : List τ) :
    (∃ t, kind t = wanted ∧ ts = t :: (expect wanted expected ts).1 ∧
      (expect wanted expected ts).2 = []) ∨
    (expect wanted expected ts = (ts, [⟨expected, ts⟩]) ∧ ∀ t ∈ ts.head?, kind t ≠ wanted) := by
  match ts with
  | [] => exact .inr ⟨rfl, by simp⟩
  | t :: rest =>
    by_cases h : kind t = wanted
    · exact .inl ⟨t, h, by simp [expect, h]⟩
    · exact .inr (by simp [expect, h])

/-! ## What is read is derived -/

/-- What a reading has to show for itself: without misses, a derivation of
the tokens that it took. -/
def Reading.Derived (layer : Layer) {start : List Token} : Reading start → Prop
  | .tree expr rest misses _ _ =>
    ∃ used, start = used ++ rest ∧ (misses = [] → Derives layer used (.ofTree expr))
  | .stuck _ misses _ => misses ≠ []

/-- A primary is a unary expression without operators. -/
theorem Reading.Derived.operand {start : List Token} {r : Reading start}
    (h : r.Derived .primary) : r.Derived .unary := by
  cases r with
  | stuck => exact h
  | tree =>
    obtain ⟨used, hused, hder⟩ := h
    exact ⟨used, hused, fun hm => .operand rfl (hder hm)⟩

mutual

/-- Levels are read as the layer that they belong to. -/
theorem derived_readLevel (layer : Layer) (hne : layer ≠ .primary) (ops : List Operators)
    (hops : layer.levels = ops) (ts : List Token) : (readLevel ops ts).Derived layer := by
  match ops with
  | [] =>
    have hlayer : layer = .unary := by cases layer <;> simp_all [Layer.levels, Program.levels]
    subst hlayer
    rw [readLevel]
    exact derived_readUnary ts
  | op :: ops =>
    obtain ⟨tighter, hnext, hlevels, hne', -⟩ := Layer.levels_cons hops
    have ih := derived_readLevel tighter hne' ops hlevels ts
    rw [readLevel]
    split
    · next left rest misses suffix shorter heq =>
      rw [heq] at ih
      obtain ⟨used, hused, hder⟩ := ih
      exact derived_readChain layer op ops hops ts left rest misses suffix shorter used hused
        fun hm => .operand hnext (hder hm)
    · next rest misses suffix heq =>
      rw [heq] at ih
      exact ih
termination_by (ts.length, ops.length + 2)

/-- A chain goes on from what is derived so far. -/
theorem derived_readChain (layer : Layer) (op : Operators) (ops : List Operators)
    (hops : layer.levels = op :: ops) (start : List Token) (left : Tree Token) (ts : List Token)
    (misses : List (Miss Token)) (suffix : ts <:+ start) (shorter : ts.length < start.length)
    (used : List Token) (hused : start = used ++ ts)
    (hder : misses = [] → Derives layer used (.ofTree left)) :
    (readChain op ops start left ts misses suffix shorter).Derived layer := by
  obtain ⟨tighter, hnext, hlevels, hne, hjoins⟩ := Layer.levels_cons hops
  match ts with
  | [] =>
    rw [readChain]
    exact ⟨used, hused, hder⟩
  | t :: rest =>
    have ih := derived_readLevel tighter hne ops hlevels rest
    rw [readChain]
    split
    · next hop =>
      split
      · next right after more suffix' shorter' heq =>
        rw [heq] at ih
        obtain ⟨taken, rfl, hright⟩ := ih
        -- The chain leans to the left: what it holds is the left operand of what follows.
        refine derived_readChain layer op ops hops start _ after _ _ _ (used ++ t :: taken)
          (by simp [hused]) fun hm => ?_
        obtain ⟨hm, hmore⟩ := List.append_eq_nil_iff.1 hm
        exact .binary hnext ((hjoins _).1 hop) (hder hm) (hright hmore)
      · next after more suffix' heq =>
        rw [heq] at ih
        exact fun hm => ih (List.append_eq_nil_iff.1 hm).2
    · exact ⟨used, hused, hder⟩
termination_by (ts.length, 0)

/-- Unary operators are read before their operand. -/
theorem derived_readUnary (ts : List Token) : (readUnary ts).Derived .unary := by
  match ts with
  | [] =>
    rw [readUnary]
    exact (derived_readPrimary []).operand
  | t :: rest =>
    rw [readUnary]
    split
    · next hop =>
      have ih := derived_readUnary rest
      split
      · next operand after misses suffix shorter heq =>
        rw [heq] at ih
        obtain ⟨used, rfl, hder⟩ := ih
        have hsign : kind t = .bang ∨ kind t = .minus := by simpa [isUnary] using hop
        exact ⟨t :: used, rfl, fun hm => .unary hsign (hder hm)⟩
      · next after misses suffix heq =>
        rw [heq] at ih
        exact ih
    · exact (derived_readPrimary (t :: rest)).operand
termination_by (ts.length, 1)

/-- A primary is one token, or an expression in parentheses. -/
theorem derived_readPrimary (ts : List Token) : (readPrimary ts).Derived .primary := by
  match ts with
  | [] =>
    rw [readPrimary]
    exact List.cons_ne_nil _ _
  | t :: rest =>
    rw [readPrimary]
    dsimp only
    split
    · next h => exact ⟨[t], rfl, fun _ => .kwFalse h⟩
    · next h => exact ⟨[t], rfl, fun _ => .kwTrue h⟩
    · next h => exact ⟨[t], rfl, fun _ => .kwNil h⟩
    · next h => exact ⟨[t], rfl, fun _ => .number h⟩
    · next h => exact ⟨[t], rfl, fun _ => .string h⟩
    · next h => exact ⟨[t], rfl, fun _ => .name h⟩
    · next hopen =>
      have ih := derived_readLevel .equality (by simp) levels rfl rest
      split
      · next inner after misses suffix shorter heq =>
        rw [heq] at ih
        obtain ⟨used, rfl, hder⟩ := ih
        -- A tree comes back even without a closing parenthesis, but then with a miss.
        rcases expect_cases .rightParen .closingParen after with ⟨close, hclose, hafter, hmiss⟩ |
          ⟨hmiss, -⟩
        · refine ⟨t :: used ++ [close], by rw [hafter]; simp [expect, hclose], fun hm => ?_⟩
          exact .grouping hopen hclose (hder (List.append_eq_nil_iff.1 hm).1)
        · refine ⟨t :: used, by simp [hmiss], fun hm => ?_⟩
          simp [hmiss] at hm
      · next after misses suffix heq =>
        rw [heq] at ih
        exact ih
    · exact List.cons_ne_nil _ _
termination_by (ts.length, 0)

end

/-- **An expression that is read without misses is derived.** -/
theorem derived_readExpr (ts : List Token) : (readExpr ts).Derived .equality :=
  derived_readLevel .equality (by simp) levels rfl ts

/-- A statement that ends without a miss ends in a semicolon. -/
theorem finish_cases {start : List Token} {expected : Expectation} {clause : Clause Token}
    {ts : List Token} {misses : List (Miss Token)} {suffix : ts <:+ start}
    {shorter : ts.length < start.length}
    (hm : (Step.finish expected clause ts misses suffix shorter).misses = []) :
    misses = [] ∧ ∃ semicolon, semicolon.kind = .semicolon ∧
      ts = semicolon :: (Step.finish expected clause ts misses suffix shorter).rest := by
  obtain ⟨hm, hclosed⟩ := List.append_eq_nil_iff.1 hm
  rcases expect_cases .semicolon expected ts with ⟨t, ht, hts, -⟩ | ⟨hmiss, -⟩
  · exact ⟨hm, t, ht, hts⟩
  · rw [hmiss] at hclosed
    exact absurd hclosed (List.cons_ne_nil _ _)

/-- A clause that is read without a miss is an expression and a
semicolon. -/
theorem readClause_cases {start : List Token} {expected : Expectation}
    {make : Tree Token → Clause Token} {ts : List Token} {misses : List (Miss Token)}
    {suffix : ts <:+ start} (hm : (readClause expected make ts misses suffix).misses = []) :
    misses = [] ∧ ∃ used semicolon expr, semicolon.kind = .semicolon ∧
      ts = used ++ semicolon :: (readClause expected make ts misses suffix).rest ∧
      (readClause expected make ts misses suffix).clause = some (make expr) ∧
      Derives .equality used (.ofTree expr) := by
  have hread := derived_readExpr ts
  revert hm
  rw [readClause]
  split
  · next expr rest more suffix' shorter heq =>
    rw [heq] at hread
    obtain ⟨used, rfl, hder⟩ := hread
    intro hm
    obtain ⟨hm, semicolon, hsemi, hrest⟩ := finish_cases hm
    obtain ⟨hm, hmore⟩ := List.append_eq_nil_iff.1 hm
    exact ⟨hm, used, semicolon, expr, hsemi, congrArg (used ++ ·) hrest, rfl, hder hmore⟩
  · next rest more suffix' heq =>
    rw [heq] at hread
    intro hm
    exact absurd (List.append_eq_nil_iff.1 hm).2 hread

/-- After its name a declaration ends, or goes on with an initializer. -/
theorem readInitializer_cases {start : List Token} {name : Option Token} {ts : List Token}
    {misses : List (Miss Token)} {suffix : ts <:+ start} {shorter : ts.length < start.length}
    (hm : (readInitializer name ts misses suffix shorter).misses = []) :
    misses = [] ∧
      ((∃ semicolon, semicolon.kind = .semicolon ∧
          ts = semicolon :: (readInitializer name ts misses suffix shorter).rest ∧
          (readInitializer name ts misses suffix shorter).clause = some (.var name none)) ∨
        ∃ equal used semicolon expr, equal.kind = .equal ∧ semicolon.kind = .semicolon ∧
          ts = equal :: used ++ semicolon :: (readInitializer name ts misses suffix shorter).rest ∧
          (readInitializer name ts misses suffix shorter).clause
            = some (.var name (some expr)) ∧
          Derives .equality used (.ofTree expr)) := by
  match ts with
  | [] =>
    rw [readInitializer] at hm
    obtain ⟨-, semicolon, -, hts⟩ := finish_cases hm
    simp at hts
  | t :: rest =>
    revert hm
    rw [readInitializer]
    split
    · next hequal =>
      intro hm
      obtain ⟨hm, used, semicolon, expr, hsemi, hrest, hclause, hder⟩ := readClause_cases hm
      exact ⟨hm, .inr ⟨t, used, semicolon, expr, hequal, hsemi, congrArg (t :: ·) hrest, hclause,
        hder⟩⟩
    · intro hm
      obtain ⟨hm, semicolon, hsemi, hrest⟩ := finish_cases hm
      exact ⟨hm, .inl ⟨semicolon, hsemi, hrest, rfl⟩⟩

/-- **A declaration that is read without misses is derived.** -/
theorem derived_readStep (ts : List Token) (hm : (readStep ts).misses = []) :
    ∃ used clause, ts = used ++ (readStep ts).rest ∧ (readStep ts).clause = some clause ∧
      DerivesStmt used (.ofClause clause) := by
  match ts with
  | [] =>
    rw [readStep] at hm
    obtain ⟨-, used, semicolon, expr, -, hts, -⟩ := readClause_cases hm
    simp at hts
  | t :: rest =>
    revert hm
    rw [readStep]
    split
    · next hword =>
      rw [readVar]
      intro hm
      -- Without a miss there is a name, and it is the one that the clause holds.
      obtain ⟨hnamed, hinit⟩ := readInitializer_cases hm
      rcases expect_cases .identifier .variableName rest with ⟨name, hname, hrest, -⟩ | ⟨hmiss, -⟩
      · have hfilter : rest.head?.filter (fun t => kind t == .identifier) = some name := by
          rw [hrest]
          simp [hname]
        rcases hinit with ⟨semicolon, hsemi, hinit, hclause⟩ |
          ⟨equal, used, semicolon, expr, hequal, hsemi, hinit, hclause, hder⟩
        · refine ⟨[t, name, semicolon], _, ?_, hclause, ?_⟩
          · exact congrArg (t :: ·) (hrest.trans (congrArg (name :: ·) hinit))
          · rw [hfilter]
            exact .bare hword hname hsemi
        · refine ⟨t :: name :: equal :: used ++ [semicolon], _, ?_, hclause, ?_⟩
          · simpa using congrArg (t :: ·) (hrest.trans (congrArg (name :: ·) hinit))
          · rw [hfilter]
            exact .var hword hname hequal hder hsemi
      · rw [hmiss] at hnamed
        exact absurd hnamed (List.cons_ne_nil _ _)
    · next hword =>
      intro hm
      obtain ⟨-, used, semicolon, expr, hsemi, hrest, hclause, hder⟩ := readClause_cases hm
      exact ⟨t :: used ++ [semicolon], _, by simpa using hrest, hclause, .print hword hder hsemi⟩
    · intro hm
      obtain ⟨-, used, semicolon, expr, hsemi, hrest, hclause, hder⟩ := readClause_cases hm
      exact ⟨used ++ [semicolon], _, by simpa using hrest, hclause, .expr hder hsemi⟩

/-- **A token list that is read without misses is derived**, up to its
end. -/
theorem derived_entries (ts : List Token) (hm : (entries ts).flatMap Entry.misses = []) :
    ∃ used left, ts = used ++ left ∧ atEnd left = true ∧
      DerivesProgram used (((entries ts).filterMap Entry.clause).map Stmt.ofClause) := by
  fun_induction entries ts with
  | case1 ts hend => exact ⟨[], ts, rfl, hend, .done⟩
  | case2 ts hend step ih =>
    rw [List.flatMap_cons, List.append_eq_nil_iff] at hm
    obtain ⟨used, clause, hts, hclause, hder⟩ := derived_readStep ts hm.1
    obtain ⟨more, left, hrest, hleft, hprogram⟩ := ih hm.2
    refine ⟨used ++ more, left, by rw [List.append_assoc, ← hrest, ← hts], hleft, ?_⟩
    simp only [List.filterMap_cons, hclause, step]
    exact .step hder hprogram

/-! ## What is derived is read -/

/-- What is left starts with no operator of the given levels. -/
def Stops (ops : List Operators) (ts : List Token) : Prop :=
  ∀ t ∈ ts.head?, ∀ op ∈ ops, op t.kind = false

/-- The reader of a layer. -/
def Layer.read : Layer → (ts : List Token) → Reading ts
  | primary, ts => readPrimary ts
  | layer, ts => readLevel layer.levels ts

/-- A reading is a tree without misses, and what is left after it. -/
def Reading.Is {start : List Token} (r : Reading start) (expr : Tree Token) (rest : List Token) :
    Prop :=
  ∃ suffix shorter, r = .tree expr rest [] suffix shorter

/-- What a layer still reads after an operand: a chain, where operators
join the layer. -/
def Layer.GoesOn (layer : Layer) (left : Tree Token) (ts : List Token) (expr : Tree Token)
    (rest : List Token) : Prop :=
  match layer.levels with
  | [] => expr = left ∧ rest = ts
  | op :: ops => ∀ start suffix shorter,
    (readChain op ops start left ts [] suffix shorter).Is expr rest

/-- Where no operator of the layer stands, nothing more is read. -/
theorem Layer.goesOn_of_stops {layer : Layer} {left : Tree Token} {ts : List Token}
    (h : Stops layer.levels ts) : layer.GoesOn left ts left ts := by
  unfold GoesOn
  split
  · exact ⟨rfl, rfl⟩
  · next op ops hops =>
    intro start suffix shorter
    match ts with
    | [] =>
      rw [readChain]
      exact ⟨_, _, rfl⟩
    | t :: rest =>
      have hop : op (kind t) = false := h t rfl op (by simp [hops])
      rw [readChain, if_neg (by simp [hop])]
      exact ⟨_, _, rfl⟩

/-- The operators of a layer are none of the levels that bind tighter. -/
theorem Layer.Joins.stops {layer tighter : Layer} (hnext : layer.next? = some tighter) {t : Token}
    (h : layer.Joins t.kind) (rest : List Token) : Stops tighter.levels (t :: rest) := by
  intro u hu op hop
  obtain rfl : t = u := by simpa using hu
  have key : ∀ k, layer.Joins k → ∀ op ∈ tighter.levels, op k = false := by
    intro k hk
    cases layer <;> cases hnext <;> cases k <;> simp_all [Joins, levels, Program.levels]
  exact key _ h op hop

/-- A layer that joins operands is read as its first operand, and then as
it goes on. -/
theorem Layer.read_of_goesOn {layer tighter : Layer} (hnext : layer.next? = some tighter)
    (hne : layer ≠ .unary) {ts rest rest' : List Token} {left expr : Tree Token}
    (h : (tighter.read ts).Is left rest) (hgoes : layer.GoesOn left rest expr rest') :
    (layer.read ts).Is expr rest' := by
  obtain ⟨suffix, shorter, heq⟩ := h
  have hread : ∀ op ops, readLevel ops ts = .tree left rest [] suffix shorter →
      (∀ start suffix shorter, (readChain op ops start left rest [] suffix shorter).Is expr rest') →
      (readLevel (op :: ops) ts).Is expr rest' := by
    intro op ops heq hchain
    rw [readLevel, heq]
    exact hchain ..
  cases layer with
  | unary => exact absurd rfl hne
  | primary => simp [next?] at hnext
  | equality | comparison | term | factor =>
    cases hnext
    exact hread _ _ heq hgoes

/-- A primary is read as a unary expression. -/
theorem Layer.unary_read_of_primary {ts rest rest' : List Token} {e : Expr} {expr : Tree Token}
    (hder : Derives .primary ts e) (h : (Layer.primary.read (ts ++ rest)).Is expr rest') :
    (Layer.unary.read (ts ++ rest)).Is expr rest' := by
  obtain ⟨t, more, rfl, ht⟩ := hder.exists_primary
  have hread : Layer.unary.read (t :: more ++ rest) = readPrimary (t :: more ++ rest) := by
    show readLevel [] _ = _
    rw [readLevel, List.cons_append, readUnary, if_neg (by simpa [kind] using ht)]
  rw [hread]
  exact h

/-- A chain goes on over an operator and its right operand. -/
theorem Layer.goesOn_cons {layer tighter : Layer} (hnext : layer.next? = some tighter)
    {op : Token} (hop : layer.Joins op.kind) {ts rest rest' : List Token}
    {left right expr : Tree Token} (hright : (tighter.read ts).Is right rest)
    (h : layer.GoesOn (.binary left op right) rest expr rest') :
    layer.GoesOn left (op :: ts) expr rest' := by
  obtain ⟨suffix', shorter', heq⟩ := hright
  unfold GoesOn at h ⊢
  split
  · next hlevels => cases layer <;> simp_all [Joins, levels, Program.levels]
  · next o ops hlevels =>
    obtain ⟨tighter', hnext', rfl, hne, hjoins⟩ := Layer.levels_cons hlevels
    obtain rfl : tighter = tighter' := by simpa [hnext] using hnext'
    have hread : readLevel tighter.levels ts = .tree right rest [] suffix' shorter' := by
      cases tighter with
      | primary => exact absurd rfl hne
      | equality | comparison | term | factor | unary => exact heq
    rw [hlevels] at h
    intro start suffix shorter
    have ho : o (kind op) = true := (hjoins _).2 hop
    rw [readChain, if_pos ho, hread]
    exact h ..

/-- A list that starts with no operator of a level stops all levels. -/
theorem stops_of_forall {t : Token} {rest : List Token} (h : ∀ op ∈ levels, op t.kind = false)
    (layer : Layer) : Stops layer.levels (t :: rest) := by
  intro u hu op hop
  obtain rfl : t = u := by simpa using hu
  refine h op ?_
  cases layer with
  | equality => exact hop
  | comparison | term | factor => exact List.mem_of_mem_drop hop
  | unary | primary => simp [Layer.levels] at hop

/-- Levels that are stopped in a layer are stopped in the next. -/
theorem Stops.next {layer tighter : Layer} (hnext : layer.next? = some tighter) {ts : List Token}
    (h : Stops layer.levels ts) : Stops tighter.levels ts := by
  intro t ht op hop
  refine h t ht op ?_
  cases layer <;> cases hnext <;> simp_all [Layer.levels, levels]

/-- A primary of one token is read as such before any text. -/
theorem goesOn_of_leaf {t : Token} (leaf : Tree Token)
    (h : ∀ rest, (readPrimary (t :: rest)).Is leaf rest) (rest : List Token) :
    ∃ left, Expr.ofTree left = .ofTree leaf ∧ ∀ expr rest',
      Layer.primary.GoesOn left rest expr rest' →
        (Layer.primary.read ([t] ++ rest)).Is expr rest' := by
  refine ⟨leaf, rfl, fun expr rest' hgoes => ?_⟩
  obtain ⟨rfl, rfl⟩ := hgoes
  exact h rest'

/-- **What a layer derives, its reader reads**: before any text at which
the tighter layers stop, the reader has the tree in hand and goes on. -/
theorem Derives.goesOn {layer : Layer} {ts : List Token} {e : Expr} (h : Derives layer ts e) :
    ∀ rest, (∀ tighter, layer.next? = some tighter → Stops tighter.levels rest) →
      ∃ left, Expr.ofTree left = e ∧ ∀ expr rest', layer.GoesOn left rest expr rest' →
        (layer.read (ts ++ rest)).Is expr rest' := by
  induction h with
  | @operand layer tighter ts e hnext hder ih =>
    intro rest hstops
    have hstop := hstops tighter hnext
    obtain ⟨left, hleft, hread⟩ := ih rest fun _ hnext' => hstop.next hnext'
    have hoperand := hread left rest (Layer.goesOn_of_stops hstop)
    refine ⟨left, hleft, fun expr rest' hgoes => ?_⟩
    -- A unary layer joins nothing, so its reader has no chain to go on with.
    by_cases hunary : layer = .unary
    · subst hunary
      cases hnext
      obtain ⟨rfl, rfl⟩ := hgoes
      exact Layer.unary_read_of_primary hder hoperand
    · exact Layer.read_of_goesOn hnext hunary hoperand hgoes
  | @binary layer tighter ts us op e f hnext hop _ _ ihl ihr =>
    intro rest hstops
    have hstop := hstops tighter hnext
    -- The left operand goes on over the operator, which stops the tighter layers before it.
    obtain ⟨left, rfl, hleft⟩ := ihl (op :: us ++ rest) fun tighter' hnext' => by
      obtain rfl : tighter = tighter' := by simpa [hnext] using hnext'
      exact hop.stops hnext _
    obtain ⟨right, rfl, hright⟩ := ihr rest fun _ hnext' => hstop.next hnext'
    refine ⟨.binary left op right, rfl, fun expr rest' hgoes => ?_⟩
    rw [List.append_assoc]
    exact hleft expr rest' (Layer.goesOn_cons hnext hop
      (hright right rest (Layer.goesOn_of_stops hstop)) hgoes)
  | @unary op ts e hop _ ih =>
    intro rest hstops
    obtain ⟨left, rfl, hread⟩ := ih rest hstops
    obtain ⟨suffix, shorter, heq⟩ := hread left rest ⟨rfl, rfl⟩
    refine ⟨.unary op left, rfl, fun expr rest' hgoes => ?_⟩
    obtain ⟨rfl, rfl⟩ := hgoes
    have hsign : isUnary (kind op) = true := by simpa [isUnary, kind] using hop
    have hread : readUnary (ts ++ rest') = .tree left rest' [] suffix shorter := by
      rw [← heq]
      show _ = readLevel [] _
      rw [readLevel]
    show (readLevel [] (op :: ts ++ rest')).Is _ _
    rw [readLevel, List.cons_append, readUnary, if_pos hsign, hread]
    exact ⟨_, _, rfl⟩
  | kwTrue h =>
    exact fun rest _ => goesOn_of_leaf (.constant (.bool true))
      (fun rest => by simp [readPrimary, kind, h, Reading.Is]) rest
  | kwFalse h =>
    exact fun rest _ => goesOn_of_leaf (.constant (.bool false))
      (fun rest => by simp [readPrimary, kind, h, Reading.Is]) rest
  | kwNil h =>
    exact fun rest _ => goesOn_of_leaf (.constant .nil)
      (fun rest => by simp [readPrimary, kind, h, Reading.Is]) rest
  | number h =>
    exact fun rest _ => goesOn_of_leaf (.number _)
      (fun rest => by simp [readPrimary, kind, h, Reading.Is]) rest
  | string h =>
    exact fun rest _ => goesOn_of_leaf (.string _)
      (fun rest => by simp [readPrimary, kind, h, Reading.Is]) rest
  | name h =>
    exact fun rest _ => goesOn_of_leaf (.name _)
      (fun rest => by simp [readPrimary, kind, h, Reading.Is]) rest
  | @grouping opening closing ts e hopen hclose _ ih =>
    intro rest _
    have hclosing : ∀ op ∈ levels, op closing.kind = false := by simp [levels, hclose]
    obtain ⟨left, rfl, hread⟩ := ih (closing :: rest) fun tighter _ =>
      stops_of_forall hclosing tighter
    obtain ⟨suffix, shorter, heq⟩ :=
      hread left _ (Layer.goesOn_of_stops (stops_of_forall hclosing _))
    have hread : readLevel levels (ts ++ closing :: rest)
        = .tree left (closing :: rest) [] suffix shorter := heq
    refine ⟨.grouping left, rfl, fun expr rest' hgoes => ?_⟩
    obtain ⟨rfl, rfl⟩ := hgoes
    show (readPrimary (opening :: ts ++ [closing] ++ rest')).Is _ _
    rw [List.append_assoc, List.singleton_append, List.cons_append]
    simp only [readPrimary, kind, hopen, hread, expect, hclose, if_true]
    exact ⟨_, _, rfl⟩

/-- **A derived expression is read**, up to the semicolon after it. -/
theorem Derives.readExpr_is {ts : List Token} {e : Expr} (h : Derives .equality ts e)
    {semicolon : Token} (hsemi : semicolon.kind = .semicolon) (rest : List Token) :
    ∃ tree, Expr.ofTree tree = e ∧ (readExpr (ts ++ semicolon :: rest)).Is tree
      (semicolon :: rest) := by
  have hend : ∀ op ∈ levels, op semicolon.kind = false := by simp [levels, hsemi]
  obtain ⟨tree, rfl, hread⟩ := h.goesOn (semicolon :: rest) fun tighter _ => stops_of_forall hend _
  exact ⟨tree, rfl, hread tree _ (Layer.goesOn_of_stops (stops_of_forall hend _))⟩

/-- A step is a clause without misses, and what is left after it. -/
def Step.Is {start : List Token} (step : Step start) (clause : Clause Token) (rest : List Token) :
    Prop :=
  step.clause = some clause ∧ step.rest = rest ∧ step.misses = []

/-- A statement ends at its semicolon. -/
theorem finish_is {start : List Token} (expected : Expectation) (clause : Clause Token)
    {semicolon : Token} (hsemi : semicolon.kind = .semicolon) (rest : List Token)
    (suffix : semicolon :: rest <:+ start)
    (shorter : (semicolon :: rest).length < start.length) :
    (Step.finish expected clause (semicolon :: rest) [] suffix shorter).Is clause rest := by
  have hclosed : expect .semicolon expected (semicolon :: rest) = (rest, []) := by
    simp [expect, kind, hsemi]
  exact ⟨rfl, congrArg Prod.fst hclosed, congrArg Prod.snd hclosed⟩

/-- A derived expression and a semicolon are read as a clause. -/
theorem Derives.readClause_is {ts : List Token} {e : Expr} (h : Derives .equality ts e)
    {semicolon : Token} (hsemi : semicolon.kind = .semicolon) (rest : List Token) :
    ∃ tree, Expr.ofTree tree = e ∧ ∀ start expected make suffix,
      (readClause expected make (ts ++ semicolon :: rest) [] suffix : Step start).Is
        (make tree) rest := by
  obtain ⟨tree, htree, suffix', shorter, heq⟩ := h.readExpr_is hsemi rest
  refine ⟨tree, htree, fun start expected make suffix => ?_⟩
  rw [readClause, heq]
  exact finish_is expected _ hsemi rest _ _

/-- **A derived declaration is read** as one step. -/
theorem DerivesStmt.readStep_is {ts : List Token} {s : Stmt} (h : DerivesStmt ts s)
    (rest : List Token) :
    ∃ clause, Stmt.ofClause clause = s ∧ (readStep (ts ++ rest)).Is clause rest := by
  cases h with
  | @bare word name semicolon hword hname hsemi =>
    refine ⟨.var (some name) none, rfl, ?_⟩
    have hnamed : expect .identifier .variableName (name :: semicolon :: rest)
        = (semicolon :: rest, []) := by simp [expect, kind, hname]
    simp only [List.cons_append, List.nil_append, readStep, kind, hword, readVar, hnamed,
      List.head?_cons, Option.filter_some, hname, beq_self_eq_true, if_true]
    rw [readInitializer, if_neg (by simp [kind, hsemi])]
    exact finish_is _ _ hsemi rest _ _
  | @var word name equal semicolon ts e hword hname hequal hder hsemi =>
    obtain ⟨tree, rfl, hread⟩ := hder.readClause_is hsemi rest
    refine ⟨.var (some name) (some tree), rfl, ?_⟩
    have hnamed : expect .identifier .variableName (name :: equal :: (ts ++ semicolon :: rest))
        = (equal :: (ts ++ semicolon :: rest), []) := by simp [expect, kind, hname]
    simp only [List.cons_append, List.append_assoc, List.nil_append, readStep, kind, hword,
      readVar, hnamed, List.head?_cons, Option.filter_some, hname, beq_self_eq_true, if_true]
    rw [readInitializer, if_pos (show kind equal = .equal from hequal)]
    exact hread _ _ _ _
  | @print word semicolon ts e hword hder hsemi =>
    obtain ⟨tree, rfl, hread⟩ := hder.readClause_is hsemi rest
    refine ⟨.print tree, rfl, ?_⟩
    simp only [List.cons_append, List.append_assoc, List.nil_append, readStep, kind, hword]
    exact hread _ _ _ _
  | @expr semicolon ts e hder hsemi =>
    obtain ⟨tree, rfl, hread⟩ := hder.readClause_is hsemi rest
    obtain ⟨t, more, rfl, hvar, hprint⟩ := hder.exists_cons
    refine ⟨.expr tree, rfl, ?_⟩
    rw [List.append_assoc, List.cons_append, readStep]
    split
    · next h => exact absurd h hvar
    · next h => exact absurd h hprint
    · exact hread _ _ _ _

/-- **A derived program is read**, up to the end of the list. -/
theorem DerivesProgram.entries_eq {ts : List Token} {ss : List Stmt} (h : DerivesProgram ts ss)
    {left : List Token} (hleft : atEnd left = true) :
    (entries (ts ++ left)).flatMap Entry.misses = [] ∧
      ((entries (ts ++ left)).filterMap Entry.clause).map Stmt.ofClause = ss := by
  induction h with
  | done =>
    have hnone : entries left = [] := by rw [entries, dif_pos hleft]
    simp [hnone]
  | @step ts us s ss hs hss ih =>
    obtain ⟨clause, rfl, hclause, hrest, hmisses⟩ := hs.readStep_is (us ++ left)
    have hgoes : ¬ atEnd (ts ++ us ++ left) = true := by
      obtain ⟨t, more, rfl, ht⟩ := hs.exists_cons
      simp [atEnd, kind, ht]
    rw [entries, dif_neg hgoes, List.append_assoc]
    simp only [List.flatMap_cons, List.filterMap_cons, hclause, hrest, hmisses,
      List.nil_append, List.map_cons, ih.1, ih.2, and_self]

/-- All of a list is read without a fault if nothing is missed. -/
theorem parse_eq_ok_iff {ts : List Token} {ss : List Stmt} :
    parse false ts = .ok ss ↔
      (entries ts).flatMap Entry.misses = [] ∧
        ((entries ts).filterMap Entry.clause).map Stmt.ofClause = ss := by
  simp only [parse, readAll, Bool.false_eq_true, if_false]
  split
  · next h => simp only [h, Except.map, Except.ok.injEq, true_and]
  · next h =>
    refine ⟨fun heq => ?_, fun heq => absurd heq.1 h⟩
    simp [Except.map] at heq

/-- What precedes the end of a list is all of it but its only end token. -/
theorem eq_of_append_concat {ts used left : List Token} {eof : Token}
    (hts : ∀ t ∈ ts, t.kind ≠ .eof) (hused : ∀ t ∈ used, t.kind ≠ .eof) (heof : eof.kind = .eof)
    (h : ts ++ [eof] = used ++ left) (hleft : atEnd left = true) : ts = used := by
  rcases List.append_eq_append_iff.1 h with ⟨more, rfl, hmore⟩ | ⟨more, rfl, hmore⟩
  · -- `used` cannot go on over the end token.
    match more with
    | [] => simp
    | t :: more =>
      obtain ⟨rfl, -⟩ := List.cons.inj hmore
      exact absurd heof (hused _ (by simp))
  · -- `ts` cannot go on into what is left, which starts with an end token.
    match more with
    | [] => simp
    | t :: more =>
      rw [hmore] at hleft
      exact absurd (by simpa [atEnd, kind] using hleft) (hts t (by simp))

/-- A token list up to its end is read as a program if it derives that
program, and only then. -/
theorem parse_concat_eq_ok_iff {ts : List Token} (hts : ∀ t ∈ ts, t.kind ≠ .eof) {eof : Token}
    (heof : eof.kind = .eof) {ss : List Stmt} :
    parse false (ts ++ [eof]) = .ok ss ↔ DerivesProgram ts ss := by
  rw [parse_eq_ok_iff]
  constructor
  · rintro ⟨hmisses, rfl⟩
    obtain ⟨used, left, hused, hleft, hder⟩ := derived_entries _ hmisses
    obtain rfl := eq_of_append_concat hts hder.ne_eof heof hused hleft
    exact hder
  · intro h
    exact h.entries_eq (by simp [atEnd, kind, heof])

/-- **The reader is exact.** A token list up to its end is read as a
program exactly if it derives that program, so it derives no other. -/
theorem parse_eq_ok_iff_derives (ts : List Token) (hts : ∀ t ∈ ts, t.kind ≠ .eof) (eof : Token)
    (heof : eof.kind = .eof) :
    (∀ ss, parse false (ts ++ [eof]) = .ok ss ↔ DerivesProgram ts ss) ∧
      ∀ ss ss', DerivesProgram ts ss → DerivesProgram ts ss' → ss = ss' := by
  have hiff : ∀ ss, parse false (ts ++ [eof]) = .ok ss ↔ DerivesProgram ts ss := fun _ =>
    parse_concat_eq_ok_iff hts heof
  refine ⟨hiff, fun ss ss' h h' => ?_⟩
  have heq := ((hiff ss).2 h).symm.trans ((hiff ss').2 h')
  exact Except.ok.inj heq

/-- Of three names joined by minus signs, the first two are joined first,
and each sign keeps its own line. -/
theorem parse_difference_of_names :
    let name (lexeme : String) : Token := ⟨.identifier, lexeme, 1, .null⟩
    let minus (line : Int) : Token := ⟨.minus, "-", line, .null⟩
    let semicolon : Token := ⟨.semicolon, ";", 2, .null⟩
    parse false [name "a", minus 1, name "b", minus 2, name "c", semicolon, .eof 2]
      = .ok [.expr (.binary (.binary (.var "a") (minus 1) (.var "b")) (minus 2) (.var "c"))] := by
  intro name minus semicolon
  have hname : ∀ lexeme, Derives .factor [name lexeme] (.var lexeme) := fun lexeme =>
    .operand rfl (.operand rfl (.name rfl))
  have hminus : ∀ line, Layer.term.Joins (minus line).kind := fun _ => Or.inl rfl
  have hleft : Derives .term [name "a", minus 1, name "b"]
      (.binary (.var "a") (minus 1) (.var "b")) :=
    .binary rfl (hminus 1) (.operand rfl (hname "a")) (hname "b")
  have hterm : Derives .term [name "a", minus 1, name "b", minus 2, name "c"]
      (.binary (.binary (.var "a") (minus 1) (.var "b")) (minus 2) (.var "c")) :=
    .binary rfl (hminus 2) hleft (hname "c")
  have hstmt : DerivesStmt ([name "a", minus 1, name "b", minus 2, name "c"] ++ [semicolon])
      (.expr (.binary (.binary (.var "a") (minus 1) (.var "b")) (minus 2) (.var "c"))) :=
    .expr (.operand rfl (.operand rfl hterm)) rfl
  exact ((parse_eq_ok_iff_derives _ (by simp [name, minus, semicolon]) (.eof 2) rfl).1 _).2
    (.step hstmt .done)

end Lox.Program
