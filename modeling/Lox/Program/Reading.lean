import Lox.Program.Fault
/-!
# Reading token lists

A token list is read as declarations, one after another. An expression is read by levels of
binding: equality, comparison, sums and products associate to the left, a unary operator applies to
what follows it, and a primary is a literal, a name or an expression in parentheses. A missing
name, semicolon or parenthesis is recorded and reading goes on; only a token that starts no
expression makes a declaration give up, and then reading resumes after the next semicolon or at the
next word that starts a statement.

Every reader returns what is left as a suffix of what it was given, so no token is read before the
first or after the last, and a declaration leaves less than it was given unless that was the end.
-/

namespace Lox.Program

open TokenLike

variable {τ : Type} [TokenLike τ]

/-- A set of kinds. -/
abbrev Operators := Kind → Bool

/-- The operators of the left-associative levels, loosest first. -/
def levels : List Operators :=
  [fun k => k == .bangEqual || k == .equalEqual,
   fun k => k == .greater || k == .greaterEqual || k == .less || k == .lessEqual,
   fun k => k == .minus || k == .plus,
   fun k => k == .slash || k == .star]

/-- The operators that stand before their operand. -/
def isUnary (k : Kind) : Bool :=
  k == .bang || k == .minus

/-- The words at which a statement may start. -/
def startsStatement (k : Kind) : Bool :=
  k == .kwClass || k == .kwFun || k == .kwVar || k == .kwFor || k == .kwIf || k == .kwWhile
    || k == .kwPrint || k == .kwReturn

/-- Whether no token is left before an end token. -/
def atEnd : List τ → Bool
  | [] => true
  | t :: _ => kind t == .eof

/-- What an attempt to read an expression from the given tokens comes to. -/
inductive Reading (start : List τ) where
  /-- A tree of at least one token, what is left after it, and the misses on the way. -/
  | tree (tree : Tree τ) (rest : List τ) (misses : List (Miss τ))
      (suffix : rest <:+ start) (shorter : rest.length < start.length)
  /-- The first token that is left starts no expression where one must start. -/
  | stuck (rest : List τ) (misses : List (Miss τ)) (suffix : rest <:+ start)

/-- What is left after a token of the wanted kind, or the miss of one. -/
def expect (wanted : Kind) (expected : Expectation) : List τ → List τ × List (Miss τ)
  | [] => ([], [Miss.mk expected []])
  | t :: rest =>
    if kind t = wanted then (rest, []) else (t :: rest, [Miss.mk expected (t :: rest)])

/-- What is left is a suffix, whether the token was there or not. -/
theorem expect_suffix (wanted : Kind) (expected : Expectation) (ts : List τ) :
    (expect wanted expected ts).1 <:+ ts := by
  unfold expect
  split
  · exact List.suffix_refl _
  · split
    · exact List.suffix_cons ..
    · exact List.suffix_refl _

mutual

/-- An expression whose operators all belong to the given levels or bind tighter. -/
def readLevel : (ops : List Operators) → (ts : List τ) → Reading ts
  | [], ts => readUnary ts
  | op :: ops, ts =>
    match readLevel ops ts with
    | .tree left rest misses suffix shorter =>
      readChain op ops ts left rest misses suffix shorter
    | .stuck rest misses suffix => .stuck rest misses suffix
termination_by ops ts => (ts.length, ops.length + 2)

/-- The operands of one level that follow the tree read so far, each after an operator. -/
def readChain (op : Operators) (ops : List Operators) (start : List τ)
    (left : Tree τ) (ts : List τ) (misses : List (Miss τ)) (suffix : ts <:+ start)
    (shorter : ts.length < start.length) : Reading start :=
  match ts with
  | [] => .tree left [] misses suffix shorter
  | t :: rest =>
    if op (kind t) then
      match readLevel ops rest with
      | .tree right after more suffix' shorter' =>
        readChain op ops start (.binary left t right) after (misses ++ more)
          (suffix'.trans ((List.suffix_cons t rest).trans suffix))
          (by simp only [List.length_cons] at shorter; omega)
      | .stuck after more suffix' =>
        .stuck after (misses ++ more) (suffix'.trans ((List.suffix_cons t rest).trans suffix))
    else .tree left (t :: rest) misses suffix shorter
termination_by (ts.length, 0)

/-- An operand with the unary operators before it. -/
def readUnary (ts : List τ) : Reading ts :=
  match ts with
  | [] => readPrimary []
  | t :: rest =>
    if isUnary (kind t) then
      match readUnary rest with
      | .tree operand after misses suffix shorter =>
        .tree (.unary t operand) after misses (suffix.trans (List.suffix_cons t rest))
          (Nat.lt_succ_of_lt shorter)
      | .stuck after misses suffix => .stuck after misses (suffix.trans (List.suffix_cons t rest))
    else readPrimary (t :: rest)
termination_by (ts.length, 1)

/-- A literal, a name, or an expression in parentheses. -/
def readPrimary (ts : List τ) : Reading ts :=
  match ts with
  | [] => .stuck [] [Miss.mk .expression []] (List.suffix_refl _)
  | t :: rest =>
    let leaf (tree : Tree τ) : Reading (t :: rest) :=
      .tree tree rest [] (List.suffix_cons t rest) (Nat.lt_succ_self _)
    match kind t with
    | .kwFalse => leaf (.constant (.bool false))
    | .kwTrue => leaf (.constant (.bool true))
    | .kwNil => leaf (.constant .nil)
    | .number => leaf (.number t)
    | .string => leaf (.string t)
    | .identifier => leaf (.name t)
    | .leftParen =>
      match readLevel levels rest with
      | .tree inner after misses suffix shorter =>
        let closed := expect .rightParen .closingParen after
        have closes := expect_suffix .rightParen .closingParen after
        .tree (.grouping inner) closed.1 (misses ++ closed.2)
          (closes.trans (suffix.trans (List.suffix_cons t rest)))
          (Nat.lt_succ_of_lt (Nat.lt_of_le_of_lt closes.length_le shorter))
      | .stuck after misses suffix => .stuck after misses (suffix.trans (List.suffix_cons t rest))
    | _ => .stuck (t :: rest) [Miss.mk .expression (t :: rest)] (List.suffix_refl _)
termination_by (ts.length, 0)

end

/-- An expression of any level. -/
def readExpr (ts : List τ) : Reading ts :=
  readLevel levels ts

/-- The tokens at which reading resumes: after the next semicolon, at the next word that starts a
statement, or at the end. At least one token is passed over, unless the end is reached. -/
def resume : List τ → List τ
  | [] => []
  | t :: rest =>
    if kind t = .eof then t :: rest
    else if kind t = .semicolon then rest
    else match rest with
      | [] => []
      | next :: after =>
        if startsStatement (kind next) then next :: after else resume (next :: after)

/-- Reading resumes at a suffix. -/
theorem resume_suffix (ts : List τ) : resume ts <:+ ts := by
  fun_induction resume ts with
  | case1 => exact List.suffix_refl _
  | case2 => exact List.suffix_refl _
  | case3 => exact List.suffix_cons ..
  | case4 => exact List.nil_suffix
  | case5 => exact List.suffix_cons ..
  | case6 t _ _ next after _ ih => exact ih.trans (List.suffix_cons ..)

/-- Reading resumes further on, unless it is at the end. -/
theorem length_resume_lt {ts : List τ} (h : atEnd ts = false) :
    (resume ts).length < ts.length := by
  match ts, h with
  | t :: rest, h =>
    rw [resume.eq_def]
    dsimp only
    rw [if_neg (by simpa [atEnd] using h)]
    split
    · exact Nat.lt_succ_self _
    · split
      · exact Nat.lt_succ_self _
      · split
        · exact Nat.lt_succ_self _
        · exact Nat.lt_succ_of_le (resume_suffix _).length_le

/-- What one declaration comes to: its clause, unless it was given up, what is left after it,
and its misses in order. -/
structure Step (start : List τ) where
  clause : Option (Clause τ)
  rest : List τ
  misses : List (Miss τ)
  suffix : rest <:+ start
  shorter : atEnd start = false → rest.length < start.length

namespace Step

/-- The step of a declaration that was given up where no expression starts. -/
def giveUp {start : List τ} (rest : List τ) (misses : List (Miss τ)) (suffix : rest <:+ start) :
    Step start where
  clause := none
  rest := resume rest
  misses := misses
  suffix := (resume_suffix rest).trans suffix
  shorter h := by
    by_cases same : rest.length = start.length
    · have equal := suffix.eq_of_length same
      subst equal
      exact length_resume_lt h
    · have := suffix.length_le
      have := (resume_suffix rest).length_le
      omega

/-- The step of a statement that ends in a semicolon, of which `ts` is what is left after its
expression. -/
def finish {start : List τ} (expected : Expectation) (clause : Clause τ)
    (ts : List τ) (misses : List (Miss τ)) (suffix : ts <:+ start)
    (shorter : ts.length < start.length) : Step start :=
  let closed := expect .semicolon expected ts
  have closes := expect_suffix .semicolon expected ts
  ⟨some clause, closed.1, misses ++ closed.2, closes.trans suffix,
    fun _ => Nat.lt_of_le_of_lt closes.length_le shorter⟩

end Step

/-- A statement that is an expression, which `ts` starts with, and a semicolon. -/
def readClause {start : List τ} (expected : Expectation) (make : Tree τ → Clause τ)
    (ts : List τ) (misses : List (Miss τ)) (suffix : ts <:+ start) : Step start :=
  match readExpr ts with
  | .tree expr rest more suffix' shorter =>
    .finish expected (make expr) rest (misses ++ more) (suffix'.trans suffix)
      (Nat.lt_of_lt_of_le shorter suffix.length_le)
  | .stuck rest more suffix' => .giveUp rest (misses ++ more) (suffix'.trans suffix)

/-- What follows the name in a declaration: an initializer, or none. -/
def readInitializer {start : List τ} (name : Option τ) (ts : List τ) (misses : List (Miss τ))
    (suffix : ts <:+ start) (shorter : ts.length < start.length) : Step start :=
  let bare (_ : Unit) : Step start :=
    .finish .semicolonAfterDeclaration (.var name none) ts misses suffix shorter
  match ts with
  | [] => bare ()
  | t :: rest =>
    if kind t = .equal then
      readClause .semicolonAfterDeclaration (fun tree => .var name (some tree)) rest misses
        ((List.suffix_cons t rest).trans suffix)
    else bare ()

/-- A declaration of a name, after its first word. -/
def readVar {start : List τ} (ts : List τ) (suffix : ts <:+ start)
    (shorter : ts.length < start.length) : Step start :=
  let name := ts.head?.filter fun t => kind t == .identifier
  let named := expect .identifier .variableName ts
  have names := expect_suffix .identifier .variableName ts
  readInitializer name named.1 named.2 (names.trans suffix)
    (Nat.lt_of_le_of_lt names.length_le shorter)

/-- One declaration or statement. -/
def readStep (ts : List τ) : Step ts :=
  match ts with
  | [] => readClause .semicolonAfterExpression .expr [] [] (List.suffix_refl _)
  | t :: rest =>
    match kind t with
    | .kwVar => readVar rest (List.suffix_cons t rest) (Nat.lt_succ_self _)
    | .kwPrint => readClause .semicolonAfterValue .print rest [] (List.suffix_cons t rest)
    | _ => readClause .semicolonAfterExpression .expr (t :: rest) [] (List.suffix_refl _)

/-- What is kept of a declaration that was read from a longer list. -/
structure Entry (τ : Type) where
  clause : Option (Clause τ)
  rest : List τ
  misses : List (Miss τ)

/-- The declarations of a token list, one after another up to its end. -/
def entries (ts : List τ) : List (Entry τ) :=
  if _ : atEnd ts = true then []
  else
    let step := readStep ts
    ⟨step.clause, step.rest, step.misses⟩ :: entries step.rest
termination_by ts.length
decreasing_by exact (readStep ts).shorter (by simpa using ‹¬atEnd ts = true›)

/-- The line on which a token list ends. -/
def endLine (ts : List τ) : Int :=
  (ts.getLast?.map line).getD 1

/-- The clauses of a token list, or all of its faults. Of a single statement only the first
declaration is read. -/
def readAll (single : Bool) (ts : List τ) : Except (List Fault) (List (Clause τ)) :=
  let all := entries ts
  let read := if single then all.take 1 else all
  match read.flatMap Entry.misses with
  | [] => .ok (read.filterMap Entry.clause)
  | misses => .error (misses.map (Miss.fault (endLine ts)))

end Lox.Program
