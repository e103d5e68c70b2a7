import Lox.Grammar.Automaton
import Lox.Proofs.Program.Exact
/-!
# The automaton over tokens

The shift-reduce automaton as it would run on a token list. It takes whole
tokens where the automaton of the grammar shifts terminals, so it decides
nothing about characters, and it stops at the first token that does not
fit, with the tokens that are left there. What the reader of token lists
does to the stack is said in levels: a stack is open for a level if nothing
on it binds as tightly.
-/

namespace Lox.Grammar

open Program TokenLike

/-- The level of an operator that stands between operands, counted from the
loosest. -/
def levelOf? (k : Kind) : Option Nat :=
  levels.findIdx? fun op => op k

/-- The state after a token where an operand must start. -/
def takeOperand (t : Token) (stack : List Frame) (goal : Goal) : Option State :=
  match t.kind with
  | .identifier => some (.operator (.var t.lexeme) stack goal)
  | .number => some (.operator (.literal (.number t.number)) stack goal)
  | .string => some (.operator (.literal (.string t.text)) stack goal)
  | .kwFalse => some (.operator (.literal (.bool false)) stack goal)
  | .kwTrue => some (.operator (.literal (.bool true)) stack goal)
  | .kwNil => some (.operator (.literal .nil) stack goal)
  | .bang => some (.operand (.unary t :: stack) goal)
  | .minus => some (.operand (.unary t :: stack) goal)
  | .leftParen => some (.operand (.paren :: stack) goal)
  | _ => none

namespace State

/-- The state after a token, and the statement that it completes, if it
fits. -/
def take (t : Token) : State → Option (State × Option Stmt)
  | start => match t.kind with
    | .kwVar => some (.name, none)
    | .kwPrint => some (.operand [] .print, none)
    | _ => (takeOperand t [] .expr).map (·, none)
  | name => match t.kind with
    | .identifier => some (.initializer t.lexeme, none)
    | _ => none
  | initializer declared => match t.kind with
    | .equal => some (.operand [] (.var declared), none)
    | .semicolon => some (.start, some (.var declared (.literal .nil)))
    | _ => none
  | operand stack goal => (takeOperand t stack goal).map (·, none)
  | operator value stack goal =>
    match levelOf? t.kind with
    | some level =>
      let (value, stack) := reduce level value stack
      some (.operand (.binary level value t :: stack) goal, none)
    | none =>
      match t.kind, reduce 0 value stack with
      | .rightParen, (value, .paren :: stack) => some (.operator (.grouping value) stack goal, none)
      | .semicolon, (value, []) => some (.start, some (goal.stmt value))
      | _, _ => none

/-- What a run comes to where no token fits: its end, between the last
declaration and the end token, or a failure that leaves the tokens. -/
def stop (ts : List Token) : State → Except (List Token) (List Stmt)
  | start => if atEnd ts then .ok [] else .error ts
  | _ => .error ts

end State

/-- **A run over tokens**: the statements that they complete, or the tokens
that are left at the first one that does not fit. -/
def runTokens (state : State) : List Token → Except (List Token) (List Stmt)
  | [] => state.stop []
  | t :: rest =>
    match state.take t with
    | some (next, stmt) => (runTokens next rest).map (stmt.toList ++ ·)
    | none => state.stop (t :: rest)

/-- An expression goes on over a token that fits. -/
theorem runTokens_of_take {state next : State} {t : Token} (h : state.take t = some (next, none))
    (rest : List Token) : runTokens state (t :: rest) = runTokens next rest := by
  rw [runTokens, h]
  show (runTokens next rest).map ([] ++ ·) = _
  cases runTokens next rest <;> rfl

/-- A token that completes a statement puts it before the others. -/
theorem runTokens_of_take_some {state next : State} {t : Token} {s : Stmt}
    (h : state.take t = some (next, some s)) (rest : List Token) :
    runTokens state (t :: rest) = (runTokens next rest).map (s :: ·) := by
  rw [runTokens, h]
  rfl

/-- A run stops at a token that does not fit. -/
theorem runTokens_of_take_none {state : State} {ts : List Token}
    (h : ∀ t ∈ ts.head?, state.take t = none) : runTokens state ts = state.stop ts := by
  match ts with
  | [] => rfl
  | t :: rest => rw [runTokens, h t rfl]

/-- No state takes an end token. -/
theorem State.take_of_eof {t : Token} (h : t.kind = .eof) (state : State) :
    state.take t = none := by
  rcases t with ⟨kind, lexeme, line, value⟩
  obtain rfl : kind = .eof := h
  cases state <;> rfl

/-- A run stops with all that is left. -/
theorem State.eq_of_stop_error {state : State} {ts left : List Token}
    (h : state.stop ts = .error left) : ts = left := by
  cases state with
  | start =>
    rw [State.stop] at h
    split at h
    · cases h
    · exact Except.error.inj h
  | name | initializer | operand | operator => exact Except.error.inj h

/-! ## The states of a run -/

/-- **Tokens that are taken** one after another lead from a state to another
one. -/
inductive Reaches : State → List Token → State → Prop
  | refl {state : State} : Reaches state [] state
  | cons {state next last : State} {t : Token} {s : Option Stmt} {used : List Token} :
      state.take t = some (next, s) → Reaches next used last → Reaches state (t :: used) last

/-- Whatever follows them, a run goes on from the state that they lead to. -/
theorem Reaches.runTokens_append {state last : State} {used : List Token}
    (h : Reaches state used last) :
    ∃ done, ∀ rest, runTokens state (used ++ rest) = (runTokens last rest).map (done ++ ·) := by
  induction h with
  | @refl state =>
    exact ⟨[], fun rest => by cases h : runTokens state rest <;> simp [h, Except.map]⟩
  | @cons state next last t s used htake _ ih =>
    obtain ⟨done, hrun⟩ := ih
    refine ⟨s.toList ++ done, fun rest => ?_⟩
    rw [List.cons_append, runTokens, htake]
    dsimp only
    rw [hrun]
    cases runTokens last rest <;> simp [Except.map]

/-- No end token is among them. -/
theorem Reaches.ne_eof {state last : State} {used : List Token} (h : Reaches state used last) :
    ∀ t ∈ used, t.kind ≠ .eof := by
  induction h with
  | refl => exact List.forall_mem_nil _
  | @cons state next last t s used htake _ ih =>
    refine List.forall_mem_cons.2 ⟨fun heof => ?_, ih⟩
    rw [state.take_of_eof heof] at htake
    cases htake

/-- **A run that fails** has reached a state that does not take the first of
the tokens that are left. -/
theorem exists_reaches_of_error {state : State} {ts left : List Token}
    (h : runTokens state ts = .error left) :
    ∃ used last, ts = used ++ left ∧ Reaches state used last ∧
      ∀ t ∈ left.head?, last.take t = none := by
  induction ts generalizing state with
  | nil =>
    obtain rfl : [] = left := state.eq_of_stop_error h
    exact ⟨[], state, rfl, .refl, by simp⟩
  | cons t ts ih =>
    rw [runTokens] at h
    rcases htake : state.take t with _ | ⟨next, s⟩ <;> rw [htake] at h
    · obtain rfl : t :: ts = left := state.eq_of_stop_error h
      refine ⟨[], state, rfl, .refl, fun u hu => ?_⟩
      obtain rfl : t = u := by simpa using hu
      exact htake
    · rcases hrun : runTokens next ts with left' | ss
      · obtain rfl : left' = left := by simpa [hrun, Except.map] using h
        obtain ⟨used, last, rfl, hreaches, hlast⟩ := ih hrun
        exact ⟨t :: used, last, rfl, .cons htake hreaches, hlast⟩
      · simp [hrun, Except.map] at h

/-- A run that fails leaves a part of its list, and if that has an end
token, the part has a first token. -/
theorem exists_of_runTokens_error {ts left : List Token} {state : State}
    (h : runTokens state ts = .error left) (hend : ∃ t ∈ ts, t.kind = .eof) :
    ∃ used t rest, ts = used ++ t :: rest ∧ left = t :: rest := by
  obtain ⟨used, last, rfl, hreaches, -⟩ := exists_reaches_of_error h
  rcases left with _ | ⟨t, rest⟩
  · -- An end token is not taken, so it is still ahead.
    obtain ⟨t, ht, heof⟩ := hend
    exact absurd heof (hreaches.ne_eof t (by simpa using ht))
  · exact ⟨used, t, rest, rfl, rfl⟩

/-- The kind of a token, where any type of token would do. -/
@[simp]
theorem kind_eq (t : Token) : TokenLike.kind t = t.kind :=
  rfl

/-! ## Levels on the stack -/

/-- A stack on which no frame binds as tightly as a level. Unary operators
bind tighter than all four levels. -/
def Open (level : Nat) : List Frame → Prop
  | .unary _ :: _ => 4 ≤ level
  | .binary l _ _ :: _ => l < level
  | _ => True

/-- Nothing is closed on an open stack. -/
theorem reduce_of_open {level : Nat} (hlevel : level < 4) {stack : List Frame}
    (h : Open level stack) (value : Expr) : reduce level value stack = (value, stack) := by
  match stack with
  | [] => rfl
  | .paren :: _ => rfl
  | .unary _ :: _ => exact absurd hlevel (Nat.not_lt.2 h)
  | .binary l _ _ :: _ => rw [reduce, if_neg (Nat.not_le.2 h)]

/-- A stack that is open for a level is open for the next. -/
theorem Open.succ {level : Nat} {stack : List Frame} (h : Open level stack) :
    Open (level + 1) stack := by
  match stack with
  | [] => exact h
  | .paren :: _ => exact h
  | .unary _ :: _ => exact Nat.le_succ_of_le h
  | .binary .. :: _ => exact Nat.lt_succ_of_lt h

/-- There are four levels. -/
theorem lt_of_drop_levels {level : Nat} {op : Operators} {ops : List Operators}
    (h : levels.drop level = op :: ops) : level < 4 := by
  refine Nat.lt_of_not_le fun hge => ?_
  rw [List.drop_eq_nil_of_le (show levels.length ≤ level from hge)] at h
  exact absurd h.symm (List.cons_ne_nil _ _)

/-- The operators of a level have that level. -/
theorem levelOf?_of_mem {level : Nat} {op : Operators} {ops : List Operators}
    (h : levels.drop level = op :: ops) {k : Kind} (hk : op k = true) :
    levelOf? k = some level := by
  have hlevel := lt_of_drop_levels h
  match level, hlevel with
  | 0, _ | 1, _ | 2, _ | 3, _ =>
    obtain ⟨rfl, -⟩ := List.cons.inj h
    revert hk
    cases k <;> decide

/-- What stops all levels is no operator between operands. -/
theorem levelOf?_of_stops {ts : List Token} (h : Stops levels ts) {t : Token}
    (ht : t ∈ ts.head?) : levelOf? t.kind = none := by
  rw [levelOf?, List.findIdx?_eq_none_iff]
  exact fun op hop => h t ht op hop

end Lox.Grammar
