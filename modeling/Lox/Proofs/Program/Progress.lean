import Lox.Proofs.Program.Boundary
import Lox.Proofs.Program.Naturality
/-!
# Progress on arbitrary token lists

A position in a token list stands for the tokens that are left from there.
From any position but the end a declaration gets strictly further and stays
in the list, and what it holds and misses lies on the way (`Progress`),
whether or not the list has an end token, and wherever that stands. A
declaration that is given up resumes at the next place that the rules for
resuming allow (`isLeast_resume`). So the declarations of a list are no more
than its tokens (`Run.length_le`).
-/

namespace Lox.Program

open TokenLike

variable {τ : Type}

/-! ## Positions in a list -/

/-- What is left after a position is left from a later one. -/
theorem exists_position {ts rest : List τ} {i : ℕ} (hi : i ≤ ts.length) (h : rest <:+ ts.drop i) :
    ∃ p, i ≤ p ∧ p ≤ ts.length ∧ rest = ts.drop p := by
  have hlength := h.length_le
  refine ⟨ts.length - rest.length, ?_, Nat.sub_le .., ?_⟩
  · rw [List.length_drop] at hlength
    omega
  · exact List.suffix_iff_eq_drop.1 (h.trans (List.drop_suffix i ts))

/-- The later of two positions leaves less. -/
theorem le_of_drop_suffix {ts : List τ} {p m : ℕ} (hp : p ≤ ts.length) (hm : m ≤ ts.length)
    (h : ts.drop m <:+ ts.drop p) : p ≤ m := by
  have hlength := h.length_le
  rw [List.length_drop, List.length_drop] at hlength
  omega

/-- Positions are told apart by what they leave. -/
theorem eq_of_drop_eq {ts : List τ} {m n : ℕ} (hm : m ≤ ts.length) (hn : n ≤ ts.length)
    (h : ts.drop m = ts.drop n) : m = n :=
  le_antisymm (le_of_drop_suffix hm hn (h ▸ List.suffix_rfl))
    (le_of_drop_suffix hn hm (h ▸ List.suffix_rfl))

/-! ## The tokens that are held -/

/-- The tokens that a tree holds, in order. Of a word that stands for a value
it holds the value alone. -/
def Tree.tokens : Tree τ → List τ
  | binary left operator right => left.tokens ++ operator :: right.tokens
  | unary operator operand => operator :: operand.tokens
  | grouping inner => inner.tokens
  | constant _ => []
  | number t | string t | name t => [t]

/-- The tokens that a clause holds, in order. -/
def Clause.tokens : Clause τ → List τ
  | expr tree | print tree => tree.tokens
  | var name initializer => name.toList ++ (initializer.map Tree.tokens).getD []

/-- Misses on the way from the start of a list to what is left of it, none of
which is that of an expression. -/
def OnTheWay (start rest : List τ) (misses : List (Miss τ)) : Prop :=
  ∀ m ∈ misses, m.expected ≠ .expression ∧ rest <:+ m.left ∧ m.left <:+ start

variable {start ts rest : List τ} {misses more : List (Miss τ)}

/-- No misses are on any way. -/
theorem OnTheWay.nil : OnTheWay start rest ([] : List (Miss τ)) :=
  List.forall_mem_nil _

/-- Misses on the two parts of a way. -/
theorem OnTheWay.append (h : OnTheWay start ts misses) (h' : OnTheWay ts rest more)
    (hts : ts <:+ start) (hrest : rest <:+ ts) : OnTheWay start rest (misses ++ more) := by
  intro m hm
  rcases List.mem_append.1 hm with hm | hm
  · obtain ⟨hne, hleft, hstart⟩ := h m hm
    exact ⟨hne, hrest.trans hleft, hstart⟩
  · obtain ⟨hne, hleft, hstart⟩ := h' m hm
    exact ⟨hne, hleft, hstart.trans hts⟩

/-- Misses on the rest of a way. -/
theorem OnTheWay.of_suffix (h : OnTheWay ts rest misses) (hts : ts <:+ start) :
    OnTheWay start rest misses := by
  intro m hm
  obtain ⟨hne, hleft, hstart⟩ := h m hm
  exact ⟨hne, hleft, hstart.trans hts⟩

/-- Misses on the way between two positions are at positions between them. -/
theorem OnTheWay.exists_position {i m : ℕ} (h : OnTheWay (ts.drop i) (ts.drop m) misses)
    (hi : i ≤ ts.length) (hm : m ≤ ts.length) :
    ∀ miss ∈ misses, ∃ p, i ≤ p ∧ p ≤ m ∧ miss.left = ts.drop p := by
  intro miss hmiss
  obtain ⟨-, hrest, hstart⟩ := h miss hmiss
  obtain ⟨p, hip, hp, hleft⟩ := Program.exists_position hi hstart
  rw [hleft] at hrest
  exact ⟨p, hip, le_of_drop_suffix hp hm hrest, hleft⟩

variable [TokenLike τ]

/-- What is wanted is on the way, missed or not. -/
theorem onTheWay_expect (wanted : Kind) (expected : Expectation) (h : expected ≠ .expression)
    (ts : List τ) :
    OnTheWay ts (expect wanted expected ts).1 (expect wanted expected ts).2 := by
  rcases expect_cases wanted expected ts with ⟨t, -, -, hnone⟩ | ⟨hmiss, -⟩
  · rw [hnone]
    exact .nil
  · rw [hmiss]
    intro m hm
    obtain rfl := List.mem_singleton.1 hm
    exact ⟨h, List.suffix_rfl, List.suffix_rfl⟩

/-- **Where a reading stays**: a tree holds tokens that were taken, in order. A
reading that is stuck ends with the miss of an expression at what is left. -/
def Reading.Stays {start : List τ} : Reading start → Prop
  | .tree expr rest misses _ _ =>
    (∃ used, start = used ++ rest ∧ expr.tokens.Sublist used) ∧ OnTheWay start rest misses
  | .stuck rest misses _ =>
    ∃ before, misses = before ++ [⟨.expression, rest⟩] ∧ OnTheWay start rest before

mutual

/-- Levels stay. -/
theorem stays_readLevel (ops : List Operators) (ts : List τ) : (readLevel ops ts).Stays := by
  match ops with
  | [] =>
    rw [readLevel]
    exact stays_readUnary ts
  | op :: ops =>
    have ih := stays_readLevel ops ts
    rw [readLevel]
    rcases hread : readLevel ops ts with
      ⟨left, rest, misses, suffix, shorter⟩ | ⟨rest, misses, suffix⟩ <;> rw [hread] at ih
    · obtain ⟨⟨used, hused, htokens⟩, hmisses⟩ := ih
      exact stays_readChain op ops ts left rest misses suffix shorter used hused htokens hmisses
    · exact ih
termination_by (ts.length, ops.length + 2)

/-- A chain goes on from where it has stayed. -/
theorem stays_readChain (op : Operators) (ops : List Operators) (start : List τ)
    (left : Tree τ) (ts : List τ) (misses : List (Miss τ)) (suffix : ts <:+ start)
    (shorter : ts.length < start.length) (used : List τ) (hused : start = used ++ ts)
    (htokens : left.tokens.Sublist used) (hmisses : OnTheWay start ts misses) :
    (readChain op ops start left ts misses suffix shorter).Stays := by
  match ts with
  | [] =>
    rw [readChain]
    exact ⟨⟨used, hused, htokens⟩, hmisses⟩
  | t :: rest =>
    have ih := stays_readLevel ops rest
    have hcons : rest <:+ t :: rest := List.suffix_cons t rest
    rw [readChain]
    split
    · rcases hread : readLevel ops rest with
        ⟨right, after, more, suffix', shorter'⟩ | ⟨after, more, suffix'⟩ <;> rw [hread] at ih
      · obtain ⟨⟨taken, rfl, hright⟩, hmore⟩ := ih
        exact stays_readChain op ops start _ after _ _ _ (used ++ t :: taken) (by simp [hused])
          (htokens.append (hright.cons_cons t))
          (hmisses.append (hmore.of_suffix hcons) suffix (suffix'.trans hcons))
      · obtain ⟨before, rfl, hbefore⟩ := ih
        exact ⟨misses ++ before, (List.append_assoc ..).symm,
          hmisses.append (hbefore.of_suffix hcons) suffix (suffix'.trans hcons)⟩
    · exact ⟨⟨used, hused, htokens⟩, hmisses⟩
termination_by (ts.length, 0)

/-- So does an operand with its unary operators. -/
theorem stays_readUnary (ts : List τ) : (readUnary ts).Stays := by
  match ts with
  | [] =>
    rw [readUnary]
    exact stays_readPrimary []
  | t :: rest =>
    have ih := stays_readUnary rest
    have hcons : rest <:+ t :: rest := List.suffix_cons t rest
    rw [readUnary]
    split
    · rcases hread : readUnary rest with
        ⟨operand, after, misses, suffix, shorter⟩ | ⟨after, misses, suffix⟩ <;> rw [hread] at ih
      · obtain ⟨⟨used, rfl, htokens⟩, hmisses⟩ := ih
        exact ⟨⟨t :: used, rfl, htokens.cons_cons t⟩, hmisses.of_suffix hcons⟩
      · obtain ⟨before, hbefore, hmisses⟩ := ih
        exact ⟨before, hbefore, hmisses.of_suffix hcons⟩
    · exact stays_readPrimary (t :: rest)
termination_by (ts.length, 1)

/-- A primary takes its token, or all up to the closing parenthesis. -/
theorem stays_readPrimary (ts : List τ) : (readPrimary ts).Stays := by
  match ts with
  | [] =>
    rw [readPrimary]
    exact ⟨[], rfl, .nil⟩
  | t :: rest =>
    have ih := stays_readLevel levels rest
    have hcons : rest <:+ t :: rest := List.suffix_cons t rest
    have hword : OnTheWay (t :: rest) rest [] := .nil
    rw [readPrimary]
    dsimp only
    split
    case h_7 =>
      rcases hread : readLevel levels rest with
        ⟨inner, after, misses, suffix, shorter⟩ | ⟨after, misses, suffix⟩ <;> rw [hread] at ih
      · obtain ⟨⟨used, rfl, htokens⟩, hmisses⟩ := ih
        have hclosed := onTheWay_expect .rightParen .closingParen (by simp) after
        obtain ⟨paren, hparen⟩ := expect_suffix .rightParen .closingParen after
        refine ⟨⟨t :: used ++ paren, ?_, ?_⟩, ?_⟩
        · rw [List.append_assoc, hparen, List.cons_append]
        · exact (htokens.trans (List.sublist_append_left used paren)).cons t
        · exact (hmisses.append hclosed suffix (expect_suffix ..)).of_suffix hcons
      · obtain ⟨before, hbefore, hmisses⟩ := ih
        exact ⟨before, hbefore, hmisses.of_suffix hcons⟩
    case h_8 => exact ⟨[], rfl, .nil⟩
    all_goals exact ⟨⟨[t], rfl, by simp [Tree.tokens]⟩, hword⟩
termination_by (ts.length, 0)

end

/-! ## Declarations -/

/-- **Where a declaration stays**: a clause holds tokens that were taken, in
order. A declaration that is given up ends with the miss of an expression,
after which reading resumes. -/
def Step.Stays {start : List τ} (step : Step start) : Prop :=
  match step.clause with
  | some clause =>
    (∃ used, start = used ++ step.rest ∧ clause.tokens.Sublist used) ∧
      OnTheWay start step.rest step.misses
  | none =>
    ∃ before left, step.misses = before ++ [⟨.expression, left⟩] ∧ OnTheWay start left before ∧
      left <:+ start ∧ step.rest = resume left

/-- A statement stays whether its semicolon is there or not. -/
theorem stays_finish {expected : Expectation} (hexpected : expected ≠ .expression)
    {clause : Clause τ} {suffix : ts <:+ start} {shorter : ts.length < start.length}
    (used : List τ) (hused : start = used ++ ts) (htokens : clause.tokens.Sublist used)
    (hmisses : OnTheWay start ts misses) :
    (Step.finish expected clause ts misses suffix shorter).Stays := by
  have hclosed := onTheWay_expect .semicolon expected hexpected ts
  obtain ⟨semicolon, hsemicolon⟩ := expect_suffix .semicolon expected ts
  refine ⟨⟨used ++ semicolon, ?_, ?_⟩, hmisses.append hclosed suffix (expect_suffix ..)⟩
  · rw [List.append_assoc]
    exact hused.trans (congrArg (used ++ ·) hsemicolon.symm)
  · exact htokens.trans (List.sublist_append_left used semicolon)

/-- A statement that is an expression and a semicolon stays, if what is made
of the expression does. -/
theorem stays_readClause {expected : Expectation} (hexpected : expected ≠ .expression)
    {make : Tree τ → Clause τ} {suffix : ts <:+ start} (used : List τ) (hused : start = used ++ ts)
    (hmake : ∀ tree taken, tree.tokens.Sublist taken →
      (make tree).tokens.Sublist (used ++ taken))
    (hmisses : OnTheWay start ts misses) :
    (readClause expected make ts misses suffix).Stays := by
  have hstays : (readExpr ts).Stays := stays_readLevel levels ts
  rw [readClause]
  rcases hread : readExpr ts with ⟨expr, rest, more, suffix', shorter⟩ | ⟨rest, more, suffix'⟩ <;>
    rw [hread] at hstays
  · obtain ⟨⟨taken, htaken, htokens⟩, hmore⟩ := hstays
    refine stays_finish hexpected (used ++ taken) ?_ (hmake expr taken htokens)
      (hmisses.append hmore suffix suffix')
    rw [hused, htaken, List.append_assoc]
  · obtain ⟨before, rfl, hbefore⟩ := hstays
    exact ⟨misses ++ before, rest, (List.append_assoc ..).symm,
      hmisses.append hbefore suffix suffix', suffix'.trans suffix, rfl⟩

/-- What follows the name stays. -/
theorem stays_readInitializer {name : Option τ} {suffix : ts <:+ start}
    {shorter : ts.length < start.length} (used : List τ) (hused : start = used ++ ts)
    (hname : name.toList.Sublist used) (hmisses : OnTheWay start ts misses) :
    (readInitializer name ts misses suffix shorter).Stays := by
  have hbare : (Step.finish .semicolonAfterDeclaration (.var name none) ts misses suffix
      shorter).Stays :=
    stays_finish (by simp) used hused (by simpa [Clause.tokens] using hname) hmisses
  match ts with
  | [] => exact hbare
  | t :: rest =>
    rw [readInitializer]
    split
    · refine stays_readClause (by simp) (used ++ [t]) (by simp [hused])
        (fun tree taken htaken => ?_) ?_
      · rw [List.append_assoc]
        exact hname.append (htaken.trans (List.sublist_append_right [t] taken))
      · intro m hm
        obtain ⟨hne, hleft, hstart⟩ := hmisses m hm
        exact ⟨hne, (List.suffix_cons t rest).trans hleft, hstart⟩
    · exact hbare

/-- A declaration of a name stays, after its first word. -/
theorem stays_readVar {suffix : ts <:+ start} {shorter : ts.length < start.length} (used : List τ)
    (hused : start = used ++ ts) : (readVar ts suffix shorter).Stays := by
  have hmisses := (onTheWay_expect .identifier .variableName (by simp) ts).of_suffix suffix
  rw [readVar]
  rcases expect_cases .identifier .variableName ts with ⟨t, ht, hts, -⟩ | ⟨hmiss, hother⟩
  · have hname : ts.head?.filter (fun t => kind t == .identifier) = some t := by
      rw [hts, List.head?_cons, Option.filter_some_pos (by simpa using ht)]
    refine stays_readInitializer (used ++ [t]) ?_ ?_ hmisses
    · rw [List.append_assoc]
      exact hused.trans (congrArg (used ++ ·) hts)
    · rw [hname]
      exact List.sublist_append_right used [t]
  · have hname : ts.head?.filter (fun t => kind t == .identifier) = none := by
      rw [Option.filter_eq_none_iff]
      exact fun t ht => by simpa using hother t ht
    refine stays_readInitializer used ?_ ?_ hmisses
    · rw [hmiss]
      exact hused
    · rw [hname]
      exact List.nil_sublist used

/-- **Every declaration stays**, whatever tokens it is read from. -/
theorem stays_readStep (ts : List τ) : (readStep ts).Stays := by
  match ts with
  | [] =>
    rw [readStep]
    exact stays_readClause (by simp) [] rfl (fun _ _ h => h) .nil
  | t :: rest =>
    rw [readStep]
    split
    · exact stays_readVar [t] rfl
    · exact stays_readClause (by simp) [t] rfl (fun _ _ h => h.cons t) .nil
    · exact stays_readClause (by simp) [] rfl (fun _ _ h => h) .nil

/-! ## Where reading resumes -/

/-- **A place where reading may resume**: the end, after a semicolon, or at a
word that starts a statement. -/
def ResumesAt (ts : List τ) (m : ℕ) : Prop :=
  atEnd (ts.drop m) = true ∨ (∃ t, ts[m - 1]? = some t ∧ kind t = .semicolon) ∨
    ∃ t, ts[m]? = some t ∧ startsStatement (kind t) = true

/-- It may resume at the end of a list. -/
theorem resumesAt_length (ts : List τ) : ResumesAt ts ts.length := by
  rw [ResumesAt, List.drop_length]
  exact .inl rfl

/-- Reading resumes at the same places of a longer list. -/
theorem resumesAt_cons (t : τ) (ts : List τ) {m : ℕ} (hm : 0 < m) :
    ResumesAt (t :: ts) (m + 1) ↔ ResumesAt ts m := by
  obtain ⟨m, rfl⟩ := Nat.exists_eq_add_one.2 hm
  simp [ResumesAt]

/-- And of a list with more before it. -/
theorem resumesAt_drop {ts : List τ} {j m : ℕ} (hm : j < m) :
    ResumesAt (ts.drop j) (m - j) ↔ ResumesAt ts m := by
  have hdrop : (ts.drop j).drop (m - j) = ts.drop m := by
    rw [List.drop_drop]
    congr 1
    omega
  have hbefore : (ts.drop j)[m - j - 1]? = ts[m - 1]? := by
    rw [List.getElem?_drop]
    congr 1
    omega
  have hat : (ts.drop j)[m - j]? = ts[m]? := by
    rw [List.getElem?_drop]
    congr 1
    omega
  rw [ResumesAt, hdrop, hbefore, hat, ResumesAt]

/-- At the end there is nothing to pass over. -/
theorem resume_of_atEnd {ts : List τ} (h : atEnd ts = true) : resume ts = ts := by
  match ts with
  | [] => rfl
  | t :: rest =>
    rw [resume.eq_def]
    exact if_pos (by simpa [atEnd] using h)

/-- **Reading resumes at the first place that it may resume at**, past the token
where it was given up. -/
theorem isLeast_resume {ts : List τ} (h : atEnd ts = false) :
    ∃ n, resume ts = ts.drop n ∧ IsLeast {m | 0 < m ∧ ResumesAt ts m} n := by
  have first {ts : List τ} (h : ResumesAt ts 1) : IsLeast {m | 0 < m ∧ ResumesAt ts m} 1 :=
    ⟨⟨Nat.one_pos, h⟩, fun m hm => hm.1⟩
  fun_induction resume ts with
  | case1 => cases h
  | case2 t rest heof => simp [atEnd, heof] at h
  | case3 t rest _ hsemicolon => exact ⟨1, rfl, first (.inr (.inl ⟨t, rfl, hsemicolon⟩))⟩
  | case4 t => exact ⟨1, rfl, first (.inl rfl)⟩
  | case5 t _ _ next after hstarts => exact ⟨1, rfl, first (.inr (.inr ⟨next, rfl, hstarts⟩))⟩
  | case6 t heof hsemicolon next after hstarts ih =>
    by_cases hend : atEnd (next :: after) = true
    · -- The end is reached at the next token, and reading stays there.
      refine ⟨1, ?_, first (.inl hend)⟩
      exact resume_of_atEnd hend
    · obtain ⟨n, hresume, ⟨hpos, hn⟩, hleast⟩ := ih (by simpa using hend)
      refine ⟨n + 1, hresume, ⟨Nat.succ_pos n, (resumesAt_cons t _ hpos).2 hn⟩, ?_⟩
      rintro m ⟨hm, hresumes⟩
      obtain ⟨m, rfl⟩ := Nat.exists_eq_add_one.2 hm
      rcases Nat.eq_zero_or_pos m with rfl | hm
      · -- None of the three reasons holds at the very next place.
        rcases hresumes with hat | ⟨s, hs, hkind⟩ | ⟨s, hs, hkind⟩
        · exact absurd hat hend
        · obtain rfl := Option.some.inj hs
          exact absurd hkind hsemicolon
        · obtain rfl := Option.some.inj hs
          exact absurd hkind hstarts
      · exact Nat.succ_le_succ (hleast ⟨hm, (resumesAt_cons t _ hm).1 hresumes⟩)

/-! ## Progress -/

/-- **What the declaration at position `i` of a list comes to** if the next
one is read from position `m`. -/
structure Progress (ts : List τ) (i m : ℕ) (e : Entry τ) : Prop where
  advances : i < m
  within : m ≤ ts.length
  rest : e.rest = ts.drop m
  /-- The tokens that it holds stand from `i` to `m`, in order. -/
  tokens : ∀ clause ∈ e.clause, clause.tokens.Sublist ((ts.drop i).take (m - i))
  /-- What it misses, it misses there. -/
  misses : ∀ miss ∈ e.misses, ∃ p, i ≤ p ∧ p ≤ m ∧ miss.left = ts.drop p
  /-- A declaration that misses an expression is given up. -/
  clause : e.clause ≠ none → ∀ miss ∈ e.misses, miss.expected ≠ .expression
  /-- One that is given up at `j` resumes there at the end of the list, and at
  the first possible place after `j` elsewhere. -/
  gives_up : e.clause = none → ∃ j before, i ≤ j ∧ j ≤ m ∧
    e.misses = before ++ [⟨.expression, ts.drop j⟩] ∧
    (∀ miss ∈ before, miss.expected ≠ .expression) ∧
    if atEnd (ts.drop j) then m = j else IsLeast {m | j < m ∧ ResumesAt ts m} m

/-- Where reading resumes after position `j`. -/
theorem resume_drop {ts : List τ} {j m : ℕ} (hj : j ≤ ts.length) (hm : m ≤ ts.length)
    (h : resume (ts.drop j) = ts.drop m) :
    if atEnd (ts.drop j) then m = j else IsLeast {m | j < m ∧ ResumesAt ts m} m := by
  split
  · next hend =>
    rw [resume_of_atEnd hend] at h
    exact eq_of_drop_eq hm hj h.symm
  · next hend =>
    have hend : atEnd (ts.drop j) = false := by simpa using hend
    obtain ⟨n, hresume, ⟨hpos, hn⟩, hleast⟩ := isLeast_resume hend
    -- The end of the list is such a place, so the first one is in the list.
    have hlength : 0 < (ts.drop j).length := by
      rw [List.length_pos_iff]
      rintro hnil
      simp [hnil, atEnd] at hend
    have hwithin : n ≤ (ts.drop j).length := hleast ⟨hlength, resumesAt_length _⟩
    rw [List.length_drop] at hwithin
    obtain rfl : m = j + n := by
      rw [hresume, List.drop_drop] at h
      exact eq_of_drop_eq hm (by omega) h.symm
    refine ⟨⟨by omega, ?_⟩, ?_⟩
    · rwa [← resumesAt_drop (Nat.lt_add_of_pos_right hpos), Nat.add_sub_cancel_left]
    · rintro k ⟨hk, hresumes⟩
      have := hleast ⟨Nat.sub_pos_of_lt hk, (resumesAt_drop hk).2 hresumes⟩
      omega

/-- **A declaration makes progress** from every position but the end. -/
theorem progress_readStep {ts : List τ} {i : ℕ} (h : atEnd (ts.drop i) = false) :
    ∃ m, Progress ts i m (readStep (ts.drop i)).entry := by
  have hi : i ≤ ts.length := by
    by_contra hlt
    rw [List.drop_eq_nil_of_le (by omega)] at h
    cases h
  have hstays := stays_readStep (ts.drop i)
  obtain ⟨m, him, hm, hrest⟩ := exists_position hi (readStep (ts.drop i)).suffix
  have hlt : i < m := by
    have hshorter := (readStep (ts.drop i)).shorter h
    rw [hrest, List.length_drop, List.length_drop] at hshorter
    omega
  rw [Step.Stays] at hstays
  refine ⟨m, ?_⟩
  rcases hclause : (readStep (ts.drop i)).clause with _ | clause <;> rw [hclause] at hstays
  · obtain ⟨before, left, hmisses, hbefore, hleft, hresume⟩ := hstays
    obtain ⟨j, hij, hj, rfl⟩ := exists_position hi hleft
    rw [hrest] at hresume
    have hjm : j ≤ m := le_of_drop_suffix hj hm (hresume ▸ resume_suffix _)
    refine ⟨hlt, hm, hrest, ?_, ?_, fun hne => absurd hclause hne, fun _ => ?_⟩
    · rw [Step.entry, hclause]
      exact fun clause hnone => absurd hnone (by simp)
    · rw [Step.entry, hmisses]
      refine List.forall_mem_append.2 ⟨fun miss hmiss => ?_, ?_⟩
      · obtain ⟨p, hip, hpj, hp⟩ := hbefore.exists_position hi hj miss hmiss
        exact ⟨p, hip, hpj.trans hjm, hp⟩
      · exact List.forall_mem_singleton.2 ⟨j, hij, hjm, rfl⟩
    · exact ⟨j, before, hij, hjm, hmisses, fun miss hmiss => (hbefore miss hmiss).1,
        resume_drop hj hm hresume.symm⟩
  · obtain ⟨⟨used, hused, htokens⟩, hmisses⟩ := hstays
    have hway : OnTheWay (ts.drop i) (ts.drop m) (readStep (ts.drop i)).misses := hrest ▸ hmisses
    refine ⟨hlt, hm, hrest, ?_, hway.exists_position hi hm, fun _ miss hmiss =>
      (hmisses miss hmiss).1, fun hnone => ?_⟩
    · -- The tokens that were taken are those before the next declaration.
      have htaken : (ts.drop i).take (m - i) = used := by
        have hlength := congrArg List.length hused
        rw [hrest, List.length_append, List.length_drop, List.length_drop] at hlength
        rw [hused]
        exact List.take_left' (by omega)
      rw [Step.entry, hclause, htaken]
      exact fun _ hsome => Option.some.inj hsome ▸ htokens
    · rw [Step.entry, hclause] at hnone
      cases hnone

/-- **The declarations from a position on**, each at a position where the list
has not ended, up to one where it has. -/
inductive Run (ts : List τ) : ℕ → List (Entry τ) → Prop
  | done {i : ℕ} : atEnd (ts.drop i) = true → Run ts i []
  | step {i m : ℕ} {e : Entry τ} {es : List (Entry τ)} :
      atEnd (ts.drop i) = false → Progress ts i m e → Run ts m es → Run ts i (e :: es)

/-- The declarations of what is left are a run. -/
theorem run_entries (ts : List τ) (i : ℕ) : Run ts i (entries (ts.drop i)) := by
  rw [entries]
  split
  · next hend => exact .done hend
  · next hend =>
    have hend : atEnd (ts.drop i) = false := by simpa using hend
    obtain ⟨m, hprogress⟩ := progress_readStep hend
    refine .step hend hprogress ?_
    rw [show (readStep (ts.drop i)).rest = ts.drop m from hprogress.rest]
    exact run_entries ts m
termination_by ts.length - i
decreasing_by
  have := hprogress.advances
  have := hprogress.within
  omega

/-- Declarations are no more than the tokens that are left. -/
theorem Run.length_le {ts : List τ} {i : ℕ} {es : List (Entry τ)} (h : Run ts i es)
    (hi : i ≤ ts.length) : i + es.length ≤ ts.length := by
  induction h with
  | done => simpa using hi
  | step _ hprogress _ ih =>
    have := hprogress.advances
    have := ih hprogress.within
    rw [List.length_cons]
    omega

/-- **Any list of tokens is read to its end.** From each position but the end
a declaration is read that ends strictly further on and in the list, and one
that is given up resumes at the first place that it may. So reading comes to
the end of the list, and the program or the faults of a list are what no more
declarations than it has tokens come to. -/
theorem declarations_progress (ts : List Token) :
    (∀ i, atEnd (ts.drop i) = false → ∃ m, Progress ts i m (readStep (ts.drop i)).entry) ∧
      Run ts 0 (entries ts) ∧
      ∀ single, ∃ read, read <+: entries ts ∧ read.length ≤ ts.length ∧
        parse single ts = outcome (endLine ts) read := by
  have hrun := run_entries ts 0
  rw [List.drop_zero] at hrun
  have hlength := hrun.length_le (Nat.zero_le _)
  rw [Nat.zero_add] at hlength
  refine ⟨fun i => progress_readStep, hrun, fun single => ⟨_, ?_, ?_, parse_eq_outcome single ts⟩⟩
  · split
    · exact List.take_prefix 1 _
    · exact List.prefix_rfl
  · split
    · exact (List.length_take_le' 1 _).trans hlength
    · exact hlength

/-- A word that starts a statement, but none that is read, and an end token
before the last token. -/
theorem progress_from_class :
    let ts : List Token := [⟨.kwPrint, "print", 1, .null⟩, ⟨.rightParen, ")", 1, .null⟩,
      ⟨.kwClass, "class", 1, .null⟩, ⟨.identifier, "a", 1, .str "a"⟩,
      ⟨.semicolon, ";", 1, .null⟩, ⟨.eof, "", 1, .null⟩, ⟨.kwNil, "nil", 1, .null⟩]
    (readStep ts).rest = ts.drop 2 ∧
      (∃ m, Progress ts 2 m (readStep (ts.drop 2)).entry) ∧
      (readStep (ts.drop 2)).rest = ts.drop 5 ∧ atEnd (ts.drop 5) = true := by
  intro ts
  exact ⟨by cbv, (declarations_progress ts).1 2 rfl, by cbv, rfl⟩

end Lox.Program
