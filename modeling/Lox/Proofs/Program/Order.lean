import Lox.Proofs.Program.Boundary
import Lox.Proofs.Program.Operators
import Lox.Proofs.Source.Place
/-!
# Faults in order

The reader of a token list never goes back: what it misses, it misses at
places that are met one after another on the way from the start of the list
to what is left of it (`Along`). So where the lines of the tokens do not
decrease, those of the faults do not either (`Along.pairwise_line`), and since a
scan counts its lines exactly, all lines that are reported for a source are
in order and lines of that source (`lines_exact`).
-/

namespace Lox

namespace Program

open TokenLike

variable {τ : Type}

/-! ## Misses on a way -/

/-- **Misses on a way** from a list to what is left of it, in the order in
which they are met. -/
inductive Along : List τ → List (Miss τ) → List τ → Prop
  | done {start rest : List τ} : rest <:+ start → Along start [] rest
  | miss {start rest : List τ} {m : Miss τ} {more : List (Miss τ)} :
      m.left <:+ start → Along m.left more rest → Along start (m :: more) rest

namespace Along

variable {start ts rest : List τ} {misses more : List (Miss τ)}

/-- A way may begin further up. -/
theorem of_suffix (h : Along ts misses rest) (hts : ts <:+ start) : Along start misses rest := by
  cases h with
  | done hrest => exact .done (hrest.trans hts)
  | miss hleft hmore => exact .miss (hleft.trans hts) hmore

/-- **One way after another.** -/
theorem append (h : Along start misses ts) (h' : Along ts more rest) :
    Along start (misses ++ more) rest := by
  induction h with
  | done hts => exact h'.of_suffix hts
  | miss hleft _ ih => exact .miss hleft (ih h')

/-- A way may end further down. -/
theorem suffix_trans (h : Along start misses ts) (hrest : rest <:+ ts) :
    Along start misses rest := by
  simpa using h.append (.done hrest)

/-- The first of some misses are met first. -/
theorem exists_of_append (h : Along start (misses ++ more) rest) :
    ∃ left, Along start misses left := by
  induction misses generalizing start with
  | nil => exact ⟨start, .done List.suffix_rfl⟩
  | cons m misses ih =>
    cases h with
    | miss hleft hmore =>
      obtain ⟨left, hway⟩ := ih hmore
      exact ⟨left, .miss hleft hway⟩

end Along

variable [TokenLike τ] {start ts rest : List τ} {misses : List (Miss τ)}

/-- What is wanted is missed where it is wanted. -/
theorem along_expect (wanted : Kind) (expected : Expectation) (ts : List τ) :
    Along ts (expect wanted expected ts).2 (expect wanted expected ts).1 := by
  rcases expect_cases wanted expected ts with ⟨t, -, hts, hnone⟩ | ⟨hmiss, -⟩
  · rw [hnone]
    exact .done (expect_suffix wanted expected ts)
  · rw [hmiss]
    exact .miss List.suffix_rfl (.done List.suffix_rfl)

/-! ## Readings -/

/-- A reading meets its misses on the way to what it leaves, also if it gets
stuck. -/
def Reading.Along {start : List τ} : Reading start → Prop
  | .tree _ rest misses _ _ | .stuck rest misses _ => Program.Along start misses rest

mutual

/-- Levels meet their misses in order. -/
theorem along_readLevel (ops : List Operators) (ts : List τ) : (readLevel ops ts).Along := by
  match ops with
  | [] =>
    rw [readLevel]
    exact along_readUnary ts
  | op :: ops =>
    have ih := along_readLevel ops ts
    rw [readLevel]
    rcases hread : readLevel ops ts with
      ⟨left, rest, misses, suffix, shorter⟩ | ⟨rest, misses, suffix⟩ <;> rw [hread] at ih
    · exact along_readChain op ops ts left rest misses suffix shorter ih
    · exact ih
termination_by (ts.length, ops.length + 2)

/-- A chain goes on from the misses before it. -/
theorem along_readChain (op : Operators) (ops : List Operators) (start : List τ) (left : Tree τ)
    (ts : List τ) (misses : List (Miss τ)) (suffix : ts <:+ start)
    (shorter : ts.length < start.length) (hmisses : Along start misses ts) :
    (readChain op ops start left ts misses suffix shorter).Along := by
  match ts with
  | [] =>
    rw [readChain]
    exact hmisses
  | t :: rest =>
    have ih := along_readLevel ops rest
    have hrest : Along start misses rest := hmisses.suffix_trans (List.suffix_cons t rest)
    rw [readChain]
    split
    · rcases hread : readLevel ops rest with
        ⟨right, after, more, suffix', shorter'⟩ | ⟨after, more, suffix'⟩ <;> rw [hread] at ih
      · exact along_readChain op ops start _ after _ _ _ (hrest.append ih)
      · exact hrest.append ih
    · exact hmisses
termination_by (ts.length, 0)

/-- So do operands with their unary operators. -/
theorem along_readUnary (ts : List τ) : (readUnary ts).Along := by
  match ts with
  | [] =>
    rw [readUnary]
    exact along_readPrimary []
  | t :: rest =>
    have ih := along_readUnary rest
    rw [readUnary]
    split
    · rcases hread : readUnary rest with
        ⟨operand, after, misses, suffix, shorter⟩ | ⟨after, misses, suffix⟩ <;> rw [hread] at ih
      · exact ih.of_suffix (List.suffix_cons t rest)
      · exact ih.of_suffix (List.suffix_cons t rest)
    · exact along_readPrimary (t :: rest)
termination_by (ts.length, 1)

/-- And primaries: the closing parenthesis is missed after all that is missed
inside. -/
theorem along_readPrimary (ts : List τ) : (readPrimary ts).Along := by
  match ts with
  | [] =>
    rw [readPrimary]
    exact .miss List.suffix_rfl (.done List.suffix_rfl)
  | t :: rest =>
    have ih := along_readLevel levels rest
    have hcons : rest <:+ t :: rest := List.suffix_cons t rest
    rw [readPrimary]
    dsimp only
    split
    case h_7 =>
      rcases hread : readLevel levels rest with
        ⟨inner, after, misses, suffix, shorter⟩ | ⟨after, misses, suffix⟩ <;> rw [hread] at ih
      · exact (ih.append (along_expect .rightParen .closingParen after)).of_suffix hcons
      · exact ih.of_suffix hcons
    case h_8 => exact .miss List.suffix_rfl (.done List.suffix_rfl)
    all_goals exact .done hcons
termination_by (ts.length, 0)

end

/-! ## Declarations -/

/-- A declaration meets its misses on the way to what it leaves. -/
def Step.Along {start : List τ} (step : Step start) : Prop :=
  Program.Along start step.misses step.rest

/-- A statement that is an expression and a semicolon does, and resumes further
down if it is given up. -/
theorem along_readClause {expected : Expectation} {make : Tree τ → Clause τ} {suffix : ts <:+ start}
    (hmisses : Along start misses ts) : (readClause expected make ts misses suffix).Along := by
  have hexpr : (readExpr ts).Along := along_readLevel levels ts
  rw [readClause]
  rcases hread : readExpr ts with ⟨expr, rest, more, suffix', shorter⟩ | ⟨rest, more, suffix'⟩ <;>
    rw [hread] at hexpr
  · exact (hmisses.append hexpr).append (along_expect .semicolon expected rest)
  · exact (hmisses.append hexpr).suffix_trans (resume_suffix rest)

/-- So does what follows the name. -/
theorem along_readInitializer {name : Option τ} {suffix : ts <:+ start}
    {shorter : ts.length < start.length} (hmisses : Along start misses ts) :
    (readInitializer name ts misses suffix shorter).Along := by
  have hbare : (Step.finish .semicolonAfterDeclaration (.var name none) ts misses suffix
      shorter).Along := hmisses.append (along_expect .semicolon .semicolonAfterDeclaration ts)
  match ts with
  | [] => exact hbare
  | t :: rest =>
    rw [readInitializer]
    split
    · exact along_readClause (hmisses.suffix_trans (List.suffix_cons t rest))
    · exact hbare

/-- **Every declaration meets its misses in order**, whatever tokens it is read
from. -/
theorem along_readStep (ts : List τ) : (readStep ts).Along := by
  match ts with
  | [] =>
    rw [readStep]
    exact along_readClause (.done List.suffix_rfl)
  | t :: rest =>
    have hcons : rest <:+ t :: rest := List.suffix_cons t rest
    rw [readStep]
    split
    · exact along_readInitializer ((along_expect .identifier .variableName rest).of_suffix hcons)
    · exact along_readClause (.done hcons)
    · exact along_readClause (.done List.suffix_rfl)

/-- **So do the declarations of a list**, one after another. -/
theorem along_entries (ts : List τ) :
    ∃ rest, Along ts ((entries ts).flatMap Entry.misses) rest := by
  rw [entries]
  split
  · exact ⟨ts, .done List.suffix_rfl⟩
  · next hend =>
    have hshorter := (readStep ts).shorter (by simpa using hend)
    obtain ⟨rest, hrest⟩ := along_entries (readStep ts).rest
    exact ⟨rest, Along.append (along_readStep ts) hrest⟩
termination_by ts.length

/-! ## Lines of faults -/

/-- The line of what is left of a list: that of the next token, or that on
which the list ends. -/
def lineAt (endLine : Int) (left : List τ) : Int :=
  (left.head?.map line).getD endLine

/-- A miss is a fault on the line of what is left at it. -/
theorem Miss.line_fault (endLine : Int) (m : Miss τ) :
    (m.fault endLine).line = lineAt endLine m.left := by
  unfold Miss.fault
  split <;> simp_all [lineAt]

/-- It is the line of a token, or that on which the list ends. -/
theorem lineAt_mem (endLine : Int) {left : List τ} (hleft : left <:+ ts) :
    lineAt endLine left ∈ ts.map line ++ [endLine] := by
  rcases left with _ | ⟨t, left⟩
  · simp [lineAt]
  · have ht : t ∈ ts := hleft.mem List.mem_cons_self
    simpa [lineAt] using .inl ⟨t, ht, rfl⟩

/-- Where lines do not decrease, no later line is less than the next one. -/
theorem lineAt_le {endLine : Int} (h : (ts.map line ++ [endLine]).Pairwise (· ≤ ·))
    {left : List τ} (hleft : left <:+ ts) : lineAt endLine ts ≤ lineAt endLine left := by
  have hmem := lineAt_mem endLine hleft
  rcases ts with _ | ⟨t, ts⟩
  · rw [List.suffix_nil.1 hleft]
  · rcases List.mem_cons.1 hmem with heq | hrest
    · exact heq.ge
    · exact List.rel_of_pairwise_cons h hrest

/-- **Misses that are met in order are faults on lines in order**, where the
lines of the tokens are. -/
theorem Along.pairwise_line {endLine : Int} (h : Along start misses rest)
    (hlines : (start.map line ++ [endLine]).Pairwise (· ≤ ·)) :
    ((misses.map (Miss.fault endLine)).map Fault.line).Pairwise (· ≤ ·) ∧
      ∀ fault ∈ misses.map (Miss.fault endLine),
        lineAt endLine start ≤ fault.line ∧ fault.line ≤ endLine := by
  induction h with
  | done => exact ⟨.nil, List.forall_mem_nil _⟩
  | @miss start rest m more hleft _ ih =>
    have hsuffix : m.left.map line ++ [endLine] <:+ start.map line ++ [endLine] :=
      (List.suffix_append_inj_of_length_eq rfl).2 ⟨hleft.map line, rfl⟩
    have hlater := hlines.sublist hsuffix.sublist
    obtain ⟨hpairwise, hwithin⟩ := ih hlater
    have hstart := lineAt_le hlines hleft
    have hend : lineAt endLine m.left ≤ endLine := lineAt_le hlater (List.nil_suffix)
    simp only [List.map_cons, List.forall_mem_cons, List.pairwise_cons, List.forall_mem_map,
      Miss.line_fault] at hwithin ⊢
    exact ⟨⟨fun n hn => (hwithin n hn).1, by simpa using hpairwise⟩, ⟨hstart, hend⟩,
      fun n hn => ⟨hstart.trans (hwithin n hn).1, (hwithin n hn).2⟩⟩

/-! ## The lines of a source -/

open Source

/-- The faults of a list are what some of its declarations miss, in order. -/
theorem exists_along_of_parse_error {single : Bool} {ts : List Token} {faults : List Fault}
    (h : parse single ts = .error faults) :
    ∃ misses rest, Along ts misses rest ∧ faults = misses.map (Miss.fault (endLine ts)) := by
  obtain ⟨rest, hall⟩ := along_entries ts
  rw [parse_eq_outcome, outcome] at h
  split at h
  · cases h
  · obtain rfl := Except.error.inj h
    -- Of a single statement only the first declaration is read.
    split
    · rw [← List.take_append_drop 1 (entries ts), List.flatMap_append] at hall
      obtain ⟨left, hfirst⟩ := hall.exists_of_append
      exact ⟨_, left, hfirst, rfl⟩
    · exact ⟨_, rest, hall, rfl⟩

/-- The tokens of a source end on its last line. -/
theorem endLine_tokens (source : String) :
    endLine (scan source).tokens = lineAfter source.toList := by
  rw [tokens_eq_places, endLine, List.getLast?_concat]
  rfl

/-- **The faults of the tokens of a source are in order.** -/
theorem inOrder_parse {source : String} {single : Bool} {faults : List Fault}
    (h : parse single (scan source).tokens = .error faults) :
    InOrder source.toList (faults.map Fault.line) := by
  have hlines := (inOrder_tokens source).concat
  rw [← endLine_tokens] at hlines
  obtain ⟨misses, rest, hway, rfl⟩ := exists_along_of_parse_error h
  obtain ⟨hpairwise, hwithin⟩ := hway.pairwise_line hlines.pairwise
  refine ⟨hpairwise, List.forall_mem_map.2 fun fault hfault => ?_⟩
  obtain ⟨hstart, hend⟩ := hwithin fault hfault
  have hfirst := (hlines.within _ (lineAt_mem _ List.suffix_rfl)).1
  exact ⟨hfirst.trans hstart, endLine_tokens source ▸ hend⟩

end Program

open Source

end Lox
