import Lox.Frontend
import Lox.Proofs.Grammar.Agreement
import Lox.Proofs.Program.Exact
import Lox.Proofs.Result
/-!
# The operators of a program

Every operator of a program is a token of the source that the program was
read from: it has no literal, and its line is a line of that source. The
reader takes operators from its token list (`operators_of_parse`), and the
grammar makes one where an operator stands (`operators_of_run`), so both
frontends have this in common (`Frontend.operators_of_read`).
-/

namespace Lox

/-- The operator tokens of an expression, in order. -/
def Expr.operators : Expr → List Token
  | binary left operator right => left.operators ++ operator :: right.operators
  | unary operator operand => operator :: operand.operators
  | grouping inner => inner.operators
  | literal _ | var _ => []

/-- The operator tokens of a statement. -/
def Stmt.operators : Stmt → List Token
  | expr e | print e | var _ e => e.operators

/-! ## Programs from token lists -/

namespace Program

open TokenLike

/-- The kinds of operators. -/
def IsOperator (k : Kind) : Prop :=
  k = .bang ∨ ∃ layer : Layer, layer.Joins k

/-- The operators of a derived expression are tokens of its list. -/
theorem Derives.mem_operators {layer : Layer} {ts : List Token} {e : Expr}
    (h : Derives layer ts e) : ∀ t ∈ e.operators, t ∈ ts ∧ IsOperator t.kind := by
  induction h with
  | operand _ _ ih => exact ih
  | @binary layer _ ts us op e f _ hop _ _ ihl ihr =>
    intro t ht
    simp only [Expr.operators, List.mem_append, List.mem_cons] at ht ⊢
    rcases ht with ht | rfl | ht
    · exact ⟨.inl (ihl t ht).1, (ihl t ht).2⟩
    · exact ⟨.inr (.inl rfl), .inr ⟨layer, hop⟩⟩
    · exact ⟨.inr (.inr (ihr t ht).1), (ihr t ht).2⟩
  | unary hop _ ih =>
    intro t ht
    rcases List.mem_cons.1 ht with rfl | ht
    · exact ⟨List.mem_cons_self, hop.imp_right fun hminus => ⟨.term, .inl hminus⟩⟩
    · exact ⟨List.mem_cons_of_mem _ (ih t ht).1, (ih t ht).2⟩
  | kwTrue | kwFalse | kwNil | number | string | name => simp [Expr.operators]
  | grouping _ _ _ ih =>
    intro t ht
    exact ⟨by simp [(ih t ht).1], (ih t ht).2⟩

/-- So are those of a derived declaration. -/
theorem DerivesStmt.mem_operators {ts : List Token} {s : Stmt} (h : DerivesStmt ts s) :
    ∀ t ∈ s.operators, t ∈ ts ∧ IsOperator t.kind := by
  intro t ht
  cases h with
  | bare => simp [Stmt.operators, Expr.operators] at ht
  | var _ _ _ hder | print _ hder | expr hder =>
    obtain ⟨hmem, hop⟩ := hder.mem_operators t ht
    exact ⟨by simp [hmem], hop⟩

/-- The declarations that a list is read as leave suffixes of it, and each
is derived from tokens of the list if it has no misses. -/
theorem derived_of_mem_entries (ts : List Token) :
    ∀ entry ∈ entries ts, entry.misses = [] → ∀ clause ∈ entry.clause,
      ∃ used, DerivesStmt used (.ofClause clause) ∧ used ⊆ ts := by
  fun_induction entries ts with
  | case1 => simp
  | case2 ts hend step ih =>
    intro entry hentry hm clause hclause
    rcases List.mem_cons.1 hentry with rfl | hentry
    · obtain ⟨used, clause', hts, hclause', hder⟩ := derived_readStep ts hm
      obtain rfl := Option.some.inj (hclause'.symm.trans hclause)
      exact ⟨used, hder, hts ▸ List.subset_append_left _ _⟩
    · obtain ⟨used, hder, hsub⟩ := ih entry hentry hm clause hclause
      exact ⟨used, hder, fun t ht => step.suffix.mem (hsub ht)⟩

/-- **The statements of a program are derived from its list**, whether all
of the list is read or one declaration. -/
theorem derived_of_parse {single : Bool} {ts : List Token} {ss : List Stmt}
    (h : parse single ts = .ok ss) : ∀ s ∈ ss, ∃ used, DerivesStmt used s ∧ used ⊆ ts := by
  -- What is read is a part of the declarations of the list, and has no misses.
  obtain ⟨read, hread, hsub⟩ : ∃ read, (if single then (entries ts).take 1 else entries ts) = read
      ∧ ∀ entry ∈ read, entry ∈ entries ts := by
    refine ⟨_, rfl, fun entry hentry => ?_⟩
    cases single with
    | false => exact hentry
    | true => exact List.mem_of_mem_take hentry
  obtain ⟨hm, rfl⟩ : read.flatMap Entry.misses = [] ∧
      (read.filterMap Entry.clause).map Stmt.ofClause = ss := by
    simp only [parse, readAll, hread] at h
    split at h
    · next hm => exact ⟨hm, Except.ok.inj h⟩
    · exact absurd h (by simp [Except.map])
  intro s hs
  obtain ⟨clause, hclause, rfl⟩ := List.mem_map.1 hs
  obtain ⟨entry, hentry, hsome⟩ := List.mem_filterMap.1 hclause
  exact derived_of_mem_entries ts entry (hsub entry hentry)
    (List.flatMap_eq_nil_iff.1 hm entry hentry) clause hsome

/-- **The operators of a program are tokens of its list.** -/
theorem operators_of_parse {single : Bool} {ts : List Token} {ss : List Stmt}
    (h : parse single ts = .ok ss) :
    ∀ s ∈ ss, ∀ t ∈ s.operators, t ∈ ts ∧ IsOperator t.kind := by
  intro s hs t ht
  obtain ⟨used, hder, hsub⟩ := derived_of_parse h s hs
  obtain ⟨hmem, hop⟩ := hder.mem_operators t ht
  exact ⟨hsub hmem, hop⟩

end Program

/-! ## Tokens of a source -/

/-- What an operator of a source is: a token without a literal, on a line
of the text. -/
structure Token.OperatesIn (text : List Char) (t : Token) : Prop where
  literal : t.literal = .null
  one_le : 1 ≤ t.line
  le_lines : t.line ≤ 1 + text.count '\n'

namespace Source

open Program (IsOperator)

/-- An operator has no literal. -/
theorem literal_of_isOperator {k : Kind} (h : IsOperator k) (text : List Char) :
    literal k text = .null := by
  rcases h with rfl | ⟨layer, h⟩
  · rfl
  · cases layer with
    | equality | comparison | term | factor =>
      simp only [Program.Layer.Joins] at h
      rcases h with rfl | rfl | rfl | rfl <;> rfl
    | unary | primary => exact h.elim

/-- A token of some pieces stands on one of their lines, and its literal
is that of its kind. -/
theorem mem_tokensFrom {line : Int} {ps : List Piece} {t : Token} (h : t ∈ tokensFrom line ps) :
    (line ≤ t.line ∧ t.line ≤ line + (ps.flatMap Piece.text).count '\n') ∧
      (IsOperator t.kind → t.literal = .null) := by
  induction ps generalizing line with
  | nil =>
    obtain rfl := List.mem_singleton.1 h
    exact ⟨by simp [Token.eof], fun _ => rfl⟩
  | cons p ps ih =>
    have hlines : line + ((p :: ps).flatMap Piece.text).count '\n'
        = p.endLine line + (ps.flatMap Piece.text).count '\n' := by
      rw [List.flatMap_cons, List.count_append, Piece.endLine]
      omega
    have hend : line ≤ p.endLine line := by
      rw [Piece.endLine]
      omega
    have hrest : t ∈ tokensFrom (p.endLine line) ps → _ := fun h => ih h
    rw [hlines]
    cases p with
    | token kind text =>
      rcases List.mem_cons.1 h with rfl | h
      · exact ⟨by dsimp only; omega, fun hop => literal_of_isOperator hop text⟩
      · obtain ⟨hline, hliteral⟩ := hrest h
        exact ⟨by omega, hliteral⟩
    | gap | stray | unterminated =>
      obtain ⟨hline, hliteral⟩ := hrest h
      exact ⟨by omega, hliteral⟩

/-- **An operator among the tokens of a source** operates in it. -/
theorem operatesIn_of_mem_scan {source : String} {t : Token} (h : t ∈ (scan source).tokens)
    (hop : IsOperator t.kind) : t.OperatesIn source.toList := by
  obtain ⟨hline, hliteral⟩ := mem_tokensFrom h
  rw [flatMap_text_cut] at hline
  exact ⟨hliteral hop, hline.1, hline.2⟩

/-- A scan without errors has its tokens for a result. -/
theorem tokens_of_result {s : Scan} {lenient : Bool} {ts : List Token}
    (h : s.result lenient = .ok ts) : s.tokens = ts := by
  rw [Scan.result] at h
  split at h
  · exact Except.ok.inj h
  · cases h

end Source

/-! ## Programs by the grammar -/

namespace Grammar

/-- The operators of what is open. -/
def Frame.operators : Frame → List Token
  | unary operator => [operator]
  | binary _ left operator => left.operators ++ [operator]
  | paren => []

/-- The operators that a state holds. -/
def State.operators : State → List Token
  | operand stack _ => stack.flatMap Frame.operators
  | operator value stack _ => value.operators ++ stack.flatMap Frame.operators
  | start | name | initializer _ => []

/-- Closing what is open adds no operator and loses none. -/
theorem mem_operators_reduce (level : Nat) (value : Expr) (stack : List Frame) (t : Token) :
    t ∈ (reduce level value stack).1.operators
        ∨ t ∈ (reduce level value stack).2.flatMap Frame.operators
      ↔ t ∈ value.operators ∨ t ∈ stack.flatMap Frame.operators := by
  fun_induction reduce level value stack with
  | case1 value operator stack ih =>
    rw [ih, List.flatMap_cons, Frame.operators, Expr.operators]
    simp only [List.mem_append, List.mem_cons, List.not_mem_nil]
    tauto
  | case2 value l left operator stack _ ih =>
    rw [ih, List.flatMap_cons, Frame.operators, Expr.operators]
    simp only [List.mem_append, List.mem_cons, List.not_mem_nil]
    tauto
  | case3 | case4 => rfl

/-- An operand brings no operator but the one that it may start with. -/
theorem mem_operators_shiftOperand {stack : List Frame} {goal : Goal} {text : List Char}
    {line : Int} {terminal : Terminal} {next : State}
    (h : shiftOperand stack goal text line terminal = some next) :
    ∀ t ∈ next.operators, t ∈ stack.flatMap Frame.operators ∨ t = operatorToken text line := by
  intro t ht
  cases terminal <;> cases h <;>
    simp_all [State.operators, Expr.operators, Frame.operators, or_comm]

/-- The statement of a goal has the operators of its expression. -/
theorem operators_stmt (goal : Goal) (e : Expr) : (goal.stmt e).operators = e.operators := by
  cases goal <;> rfl

/-- **What shifting a terminal does to a state**, and the statement that it
completes. -/
inductive State.Shifted (text : List Char) (line : Int) :
    Terminal → State → State → Option Stmt → Prop
  | declaration : Shifted text line .kwVar .start .name none
  | print : Shifted text line .kwPrint .start (.operand [] .print) none
  | declared : Shifted text line .identifier .name (.initializer (String.ofList text)) none
  | initializer {name : String} :
    Shifted text line .equal (.initializer name) (.operand [] (.var name)) none
  | uninitialized {name : String} :
    Shifted text line .semicolon (.initializer name) .start (some (.var name (.literal .nil)))
  | expression {t : Terminal} {next : State} : shiftOperand [] .expr text line t = some next →
    Shifted text line t .start next none
  | operand {t : Terminal} {stack : List Frame} {goal : Goal} {next : State} :
    shiftOperand stack goal text line t = some next →
    Shifted text line t (.operand stack goal) next none
  | binary {t : Terminal} {level : Nat} {value left : Expr} {stack rest : List Frame}
      {goal : Goal} :
    level? t = some level → reduce level value stack = (left, rest) →
    Shifted text line t (.operator value stack goal)
      (.operand (.binary level left (operatorToken text line) :: rest) goal) none
  | closed {value inner : Expr} {stack rest : List Frame} {goal : Goal} :
    reduce 0 value stack = (inner, .paren :: rest) →
    Shifted text line .rightParen (.operator value stack goal)
      (.operator (.grouping inner) rest goal) none
  | completed {value whole : Expr} {stack : List Frame} {goal : Goal} :
    reduce 0 value stack = (whole, []) →
    Shifted text line .semicolon (.operator value stack goal) .start (some (goal.stmt whole))

/-- A shift does nothing else. -/
theorem State.shifted_of_shift {state next : State} {stmt : Option Stmt} {text : List Char}
    {line : Int} {t : Terminal} (h : state.shift text line t = some (next, stmt)) :
    Shifted text line t state next stmt := by
  cases state with
  | start =>
    simp only [State.shift] at h
    split at h
    · cases h
      exact .declaration
    · cases h
      exact .print
    · obtain ⟨next', hnext, heq⟩ := Option.map_eq_some_iff.1 h
      cases heq
      exact .expression hnext
  | name =>
    simp only [State.shift] at h
    split at h <;> cases h
    exact .declared
  | initializer =>
    simp only [State.shift] at h
    split at h <;> cases h
    · exact .initializer
    · exact .uninitialized
  | operand stack goal =>
    obtain ⟨next', hnext, heq⟩ := Option.map_eq_some_iff.1 h
    cases heq
    exact .operand hnext
  | operator value stack goal =>
    simp only [State.shift] at h
    split at h
    · next level hlevel =>
      cases h
      exact .binary hlevel rfl
    · split at h
      · next hreduce _ =>
        cases h
        exact .closed hreduce
      · next hreduce _ =>
        cases h
        exact .completed hreduce
      · cases h

/-- **A terminal brings no operator but its own**, to the state after it or
to the statement that it completes. -/
theorem mem_operators_shift {state next : State} {stmt : Option Stmt} {text : List Char}
    {line : Int} {terminal : Terminal}
    (h : state.shift text line terminal = some (next, stmt)) :
    (∀ t ∈ next.operators, t ∈ state.operators ∨ t = operatorToken text line) ∧
      ∀ s ∈ stmt, ∀ t ∈ s.operators, t ∈ state.operators := by
  cases State.shifted_of_shift h with
  | declaration | print | declared | initializer => simp [State.operators]
  | uninitialized => simp [State.operators, Stmt.operators, Expr.operators]
  | expression hnext | operand hnext => exact ⟨mem_operators_shiftOperand hnext, by simp⟩
  | @binary _ level value _ stack _ _ _ hreduce =>
    refine ⟨fun t ht => ?_, by simp⟩
    have hmem := mem_operators_reduce level value stack t
    simp only [hreduce, State.operators, List.flatMap_cons, Frame.operators, List.mem_append,
      List.mem_singleton] at hmem ht ⊢
    tauto
  | @closed value _ stack _ _ hreduce =>
    refine ⟨fun t ht => .inl ?_, by simp⟩
    have hmem := mem_operators_reduce 0 value stack t
    simp_all [State.operators, List.flatMap_cons, Frame.operators, Expr.operators]
  | @completed value _ stack _ hreduce =>
    refine ⟨by simp [State.operators], fun s hs t ht => ?_⟩
    obtain rfl := Option.some.inj hs
    have hmem := mem_operators_reduce 0 value stack t
    rw [operators_stmt] at ht
    simp_all [State.operators]

/-- Layout takes the lines that it holds. -/
theorem lines_skipLayout (line : Int) (text : List Char) :
    line ≤ (skipLayout line text).1 ∧
      (skipLayout line text).1 + (skipLayout line text).2.count '\n' ≤ line + text.count '\n' := by
  fun_induction skipLayout line text with
  | case1 => simp
  | case2 line rest ih =>
    have hdrop := (List.dropWhile_sublist (l := rest) (p := (· != '\n'))).count_le '\n'
    simp only [List.count_cons]
    omega
  | case3 line c rest _ hfeed ih =>
    obtain rfl : c = '\n' := by simpa using hfeed
    simp only [List.count_cons_self]
    omega
  | case4 line c rest _ hfeed _ ih =>
    simp only [List.count_cons]
    omega
  | case5 => simp

/-- A lexeme and what follows it take the lines that they hold. -/
theorem count_lexeme (size : Nat) (c : Char) (rest : List Char) :
    ((c :: rest).take size).count '\n' + (rest.drop (size - 1)).count '\n'
      ≤ (c :: rest).count '\n' := by
  obtain _ | size := size
  · simp [List.count_cons]
  · have h := congrArg (List.count '\n') (List.take_append_drop (size + 1) (c :: rest))
    rw [List.count_append, List.drop_succ_cons] at h
    exact h.le

/-- A lexeme that a terminal matches at the start of some text. -/
def Terminal.Matches (terminal : Terminal) (lexeme : List Char) : Prop :=
  ∃ text, terminal.matchLength text ≠ 0 ∧ lexeme = text.take (terminal.matchLength text)

/-- **What every shift keeps holds throughout a run**, and what a shift says
of the statement that it completes holds of all statements of the program.
Shifts happen on lines of the text, each of a lexeme of its terminal. -/
theorem forall_of_run (Inv : State → Prop) {Q : Stmt → Prop} {first last : Int}
    (hshift : ∀ {state next : State} {stmt : Option Stmt} {lexeme : List Char} {line : Int}
      {terminal : Terminal}, Inv state → first ≤ line → line ≤ last → terminal.Matches lexeme →
      state.shift lexeme line terminal = some (next, stmt) → Inv next ∧ ∀ s ∈ stmt, Q s)
    (state : State) (line before : Int) (text : List Char) (hfirst : first ≤ line)
    (hlast : line + text.count '\n' ≤ last) (hstate : Inv state)
    {ss : List Stmt} (h : run state line before text = .ok ss) : ∀ s ∈ ss, Q s := by
  obtain ⟨hfrom, hto⟩ := lines_skipLayout line text
  have hshort := (skipLayout_suffix line text).length_le
  rcases hskip : skipLayout line text with ⟨l, _ | ⟨c, rest⟩⟩
  · rw [run_of_skipLayout_nil hskip] at h
    split at h
    · cases h
      simp
    · exact absurd h (by simp)
  · rw [hskip] at hfrom hto hshort
    obtain ⟨terminal, hmatch, next, stmt, hnext, more, hmore, rfl⟩ := exists_shift_of_run hskip h
    have hcount := count_lexeme (terminal.matchLength (c :: rest)) c rest
    dsimp only at hfrom hto
    obtain ⟨hinv, hstmt⟩ := hshift hstate (by omega) (by omega) ⟨c :: rest, hmatch, rfl⟩ hnext
    have hless : (rest.drop (terminal.matchLength (c :: rest) - 1)).length < text.length := by
      simp only [List.length_cons, List.length_drop] at hshort ⊢
      omega
    intro s hs
    rcases List.mem_append.1 hs with hs | hs
    · exact hstmt s (Option.mem_toList.1 hs)
    · exact forall_of_run Inv hshift next _ l _ (by omega) (by omega) hinv hmore s hs
termination_by text.length
decreasing_by exact hless

/-- **What holds of any operator that stands on a line of the text holds of
those of the program.** -/
theorem operators_of_run {P : Token → Prop} {source : String}
    (hP : ∀ w l, 1 ≤ l → l ≤ 1 + (source.toList.count '\n' : Int) → P (operatorToken w l))
    {ss : List Stmt} (h : parse source = .ok ss) : ∀ s ∈ ss, ∀ t ∈ s.operators, P t := by
  refine forall_of_run (fun state => ∀ t ∈ state.operators, P t) ?_ .start 1 1 source.toList
    le_rfl le_rfl (by simp [State.operators]) h
  intro state next stmt lexeme line terminal hstate hfirst hlast _ hshift
  obtain ⟨hnext, hstmt⟩ := mem_operators_shift hshift
  refine ⟨fun t ht => ?_, fun s hs t ht => hstate t (hstmt s hs t ht)⟩
  rcases hnext t ht with ht | rfl
  · exact hstate t ht
  · exact hP _ _ hfirst hlast

end Grammar

/-! ## Both frontends -/

/-- **The operators of an accepted program operate in its source**, however
it is read. -/
theorem Frontend.operators_of_read {f : Frontend} {source : String} {ss : List Stmt}
    (h : f.read source = .ok ss) : ∀ s ∈ ss, ∀ t ∈ s.operators, t.OperatesIn source.toList := by
  cases hgrammar : f.grammar with
  | true =>
    simp only [Frontend.read, hgrammar, if_true] at h
    exact Grammar.operators_of_run (fun w l hone hlast => ⟨rfl, hone, hlast⟩)
      (eq_ok_of_mapError h)
  | false =>
    simp only [Frontend.read, hgrammar, Bool.false_eq_true, if_false] at h
    cases htokens : f.tokens source with
    | error => simp [htokens, bind, Except.bind] at h
    | ok ts =>
      rw [htokens] at h
      obtain rfl := Source.tokens_of_result (eq_ok_of_mapError htokens)
      intro s hs t ht
      obtain ⟨hmem, hop⟩ := Program.operators_of_parse (eq_ok_of_mapError h) s hs t ht
      exact Source.operatesIn_of_mem_scan hmem hop

end Lox
