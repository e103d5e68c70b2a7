import Lox.Grammar.Parse
import Lox.Proofs.Grammar.Reader
import Lox.Proofs.Grammar.Terminal
/-!
# Both ways from source to programs agree

On a source that the scanner accepts, the parser of the grammar does what
the automaton over the scanner's tokens does (`agrees_run`): at each token
it finds the terminal that reads it, or a terminal that splits it and then
fails, or none. With the reader of token lists doing the same, the two
ways to a program succeed together and with the same program
(`parse_scan_iff_grammar`).
-/

namespace Lox.Grammar

open Source Program

/-! ## One token -/

/-- The terminal that a state finds where a token of a kind stands. -/
def State.terminal? (state : State) (k : Kind) : Option Terminal :=
  (Terminal.all.filter state.accepts).find? fun t => t.reads k || t.splits k

/-- A token has characters. -/
theorem takes_ne_zero {t : Terminal} {kind : Kind} {w : List Char} (hw : w ≠ []) :
    (t.takes kind w != 0) = (t.reads kind || t.splits kind) := by
  have hlength : w.length ≠ 0 := by simpa using hw
  unfold Terminal.takes
  split
  · next h => simp [h, hlength]
  · next h =>
    have h : t.reads kind = false := by simpa using h
    split
    · next h' => simp [h, h']
    · next h' => simp [h, h']

/-- **What a state finds at a token depends on its kind alone.** -/
theorem first?_of_read {c : Char} {rest after w : List Char} {kind : Kind}
    (hread : Piece.read c rest = (.token kind w, after)) (state : State) :
    Terminal.first? (Terminal.all.filter state.accepts) (c :: rest) = state.terminal? kind := by
  have hw : w ≠ [] := by
    have := Piece.text_read_ne_nil c rest
    rwa [hread] at this
  have htakes : ∀ t : Terminal, (kind = .identifier → t.isKeyword = false) →
      (t.matchLength (c :: rest) != 0) = (t.reads kind || t.splits kind) := fun t ht => by
    rw [matchLength_of_read hread t ht, takes_ne_zero hw]
  by_cases hkind : kind = .identifier
  · subst hkind
    -- Names are tried before keywords, and where they are not tried keywords are not either.
    have hname : (Terminal.identifier.matchLength (c :: rest) != 0) = true :=
      (htakes .identifier fun _ => rfl).trans rfl
    cases state with
    | start | name | operand => exact List.find?_cons_of_pos hname
    | initializer | operator =>
      refine List.find?_congr fun t ht => htakes t fun _ => ?_
      have haccepts := (List.mem_filter.1 ht).2
      cases t <;> first | rfl | exact absurd haccepts Bool.false_ne_true
  · exact List.find?_congr fun t _ => htakes t fun h => absurd h hkind

/-- The token that the scanner makes of a piece. -/
def scanned (line : Int) (kind : Kind) (w : List Char) : Token :=
  ⟨kind, String.ofList w, line + w.count '\n', literal kind w⟩

@[simp]
theorem scanned_kind (line : Int) (kind : Kind) (w : List Char) :
    (scanned line kind w).kind = kind :=
  rfl

/-- The signs are found by their texts, and stand on one line. -/
theorem lookup_signs : ∀ p ∈ Kind.signs,
    Kind.signs.lookup p.1 = some p.2 ∧ p.1.toList.count '\n' = 0 := by
  decide

/-- A sign has no literal. -/
theorem literal_sign : ∀ p ∈ Kind.signs, ∀ w, literal p.2 w = .null := by
  simp [Kind.signs, literal]

/-- The token of an operator is the one that is scanned. -/
theorem operatorToken_eq {kind : Kind} {w : List Char} (h : Lexeme w kind (literal kind w))
    (hkind : kind ∈ Kind.signs.map Prod.snd) (line : Int) :
    operatorToken w line = scanned line kind w := by
  have hmem := mem_signs_of_lexeme h hkind
  obtain ⟨hlookup, hline⟩ := lookup_signs _ hmem
  have hliteral := literal_sign _ hmem w
  have hcount : w.count '\n' = 0 := by simpa using hline
  simp only at hlookup hliteral
  simp [operatorToken, scanned, hlookup, hcount, hliteral]

/-- An operand is shifted as its token is taken. -/
theorem shiftOperand_eq {t : Terminal} (ht : startsOperand t = true) {kind : Kind}
    (hreads : t.reads kind = true) {w : List Char} (h : Lexeme w kind (literal kind w))
    (stack : List Frame) (goal : Goal) (line : Int) :
    shiftOperand stack goal w line t = takeOperand (scanned line kind w) stack goal := by
  cases t with
  | identifier | number | string | kwFalse | kwTrue | kwNil | leftParen =>
    obtain rfl := eq_of_beq hreads
    rfl
  | unaryOp =>
    have hsign : kind = .bang ∨ kind = .minus := by simpa [Terminal.reads] using hreads
    rcases hsign with rfl | rfl <;> rw [shiftOperand, operatorToken_eq h (by decide)] <;> rfl
  | _ => exact absurd ht (by decide)

/-- An operator between operands has the level of its terminal. -/
theorem level_of_reads {t : Terminal} (ht : (level? t).isSome = true) {kind : Kind}
    (hreads : t.reads kind = true) :
    ∃ level, level? t = some level ∧ levelOf? kind = some level ∧
      kind ∈ Kind.signs.map Prod.snd := by
  obtain ⟨level, hlevel⟩ := Option.isSome_iff_exists.1 ht
  refine ⟨level, hlevel, ?_⟩
  rw [← hlevel]
  cases t with
  | comparisonOp | equalityOp | factorOp | termOp =>
    revert hreads
    cases kind <;> decide
  | _ => exact absurd ht (by decide)

/-- **A terminal is shifted as the token that it reads is taken.** -/
theorem shift_eq_take {state : State} {t : Terminal} (ht : state.accepts t = true) {kind : Kind}
    (hreads : t.reads kind = true) {w : List Char} (h : Lexeme w kind (literal kind w))
    (line : Int) : state.shift w line t = state.take (scanned line kind w) := by
  cases state with
  | start =>
    cases t with
    | identifier | number | string | kwFalse | kwPrint | kwTrue | kwNil | kwVar | leftParen =>
      obtain rfl := eq_of_beq hreads
      rfl
    | unaryOp =>
      have hsign : kind = .bang ∨ kind = .minus := by simpa [Terminal.reads] using hreads
      have hshift := congrArg (Option.map (·, (none : Option Stmt)))
        (shiftOperand_eq rfl hreads h [] .expr line)
      rcases hsign with rfl | rfl <;> exact hshift
    | _ => exact absurd ht (by decide)
  | name =>
    obtain rfl := eq_of_beq ht
    obtain rfl := eq_of_beq hreads
    rfl
  | initializer declared =>
    have hterminal : t = .equal ∨ t = .semicolon := by simpa [State.accepts] using ht
    rcases hterminal with rfl | rfl <;> obtain rfl := eq_of_beq hreads <;> rfl
  | operand stack goal =>
    exact congrArg (Option.map (·, none)) (shiftOperand_eq ht hreads h stack goal line)
  | operator value stack goal =>
    cases t with
    | semicolon | rightParen =>
      obtain rfl := eq_of_beq hreads
      have hlevel : levelOf? Kind.semicolon = none ∧ levelOf? Kind.rightParen = none := by decide
      simp only [State.shift, State.take, level?, scanned_kind, hlevel]
      rcases reduce 0 value stack with ⟨e, _ | ⟨⟨⟩, top⟩⟩ <;> rfl
    | comparisonOp | equalityOp | factorOp | termOp =>
      obtain ⟨level, hterminal, hlevel, hkind⟩ := level_of_reads (by decide) hreads
      simp only [State.shift, State.take, hterminal, scanned_kind, hlevel,
        operatorToken_eq h hkind]
    | _ => exact absurd ht Bool.false_ne_true

/-- Where a state finds no terminal, the token does not fit. -/
theorem take_of_terminal?_none {state : State} {t : Token} (h : state.terminal? t.kind = none) :
    state.take t = none := by
  rcases t with ⟨kind, lexeme, line, value⟩
  cases state <;> cases kind <;> first | rfl | exact absurd h (Option.some_ne_none _)

/-- What a state finds it accepts, and it takes the token or splits it. -/
theorem of_terminal? {state : State} {k : Kind} {t : Terminal} (h : state.terminal? k = some t) :
    state.accepts t = true ∧ (t.reads k = true ∨ t.splits k = true) := by
  have hmem := List.mem_of_find?_eq_some h
  have hfound := List.find?_some h
  exact ⟨(List.mem_filter.1 hmem).2, by simpa using hfound⟩

/-- **A token that is split does not fit**, and its first character is
shifted to where an operand must start. -/
theorem shift_of_splits {state : State} {t : Terminal} (ht : state.accepts t = true) {kind : Kind}
    (hsplits : t.splits kind = true) {w : List Char} (h : Lexeme w kind (literal kind w))
    (line : Int) :
    state.take (scanned line kind w) = none ∧ ∃ c stack goal, w = [c, '='] ∧
      [c].count '\n' = 0 ∧ state.shift [c] line t = some (.operand stack goal, none) := by
  have htext : ∀ p ∈ Kind.signs, (p.2 = .bangEqual → p.1.toList = ['!', '=']) ∧
      (p.2 = .equalEqual → p.1.toList = ['=', '=']) := by decide
  cases t with
  | unaryOp =>
    obtain rfl := eq_of_beq hsplits
    have hw : w = ['!', '='] := by
      simpa using (htext _ (mem_signs_of_lexeme h (by decide))).1 rfl
    cases state with
    | start => exact ⟨rfl, '!', [.unary _], .expr, hw, rfl, rfl⟩
    | operand stack goal => exact ⟨rfl, '!', .unary _ :: stack, goal, hw, rfl, rfl⟩
    | _ => exact absurd ht Bool.false_ne_true
  | equal =>
    obtain rfl := eq_of_beq hsplits
    have hw : w = ['=', '='] := by
      simpa using (htext _ (mem_signs_of_lexeme h (by decide))).2 rfl
    cases state with
    | initializer declared => exact ⟨rfl, '=', [], .var declared, hw, rfl, rfl⟩
    | _ => exact absurd ht Bool.false_ne_true
  | _ => exact absurd hsplits Bool.false_ne_true

/-! ## The run -/

/-- What is known to be no longer is what is left. -/
theorem skipLayout_of_afterLayout {line l : Int} {text rest : List Char}
    {short : rest.length ≤ text.length} (h : afterLayout line text = (l, ⟨rest, short⟩)) :
    skipLayout line text = (l, rest) :=
  congrArg (fun p => (p.1, p.2.1)) h

/-- A run ends at the end of its text. -/
theorem run_of_skipLayout_nil {line line' : Int} {text : List Char}
    (h : skipLayout line text = (line', [])) (state : State) (last : Int) :
    run state line last text = match state with
      | .start => .ok []
      | _ => .error (.unexpectedEnd last) := by
  rw [run.eq_def]
  split
  · rfl
  · next l c rest short hlayout => cases (skipLayout_of_afterLayout hlayout).symm.trans h

/-- A run goes on at the first character after layout. -/
theorem run_of_skipLayout_cons {line line' : Int} {text rest : List Char} {c : Char}
    (h : skipLayout line text = (line', c :: rest)) (state : State) (last : Int) :
    run state line last text =
      match Terminal.first? (Terminal.all.filter state.accepts) (c :: rest) with
      | none => .error (refuse c rest line')
      | some t =>
        let size := t.matchLength (c :: rest)
        let lexeme := (c :: rest).take size
        match state.shift lexeme line' t with
        | none => .error (.unexpectedToken (String.ofList lexeme) line')
        | some (next, stmt) =>
          (run next (line' + lexeme.count '\n') line' (rest.drop (size - 1))).map
            (stmt.toList ++ ·) := by
  rw [run.eq_def]
  split
  · next l short hlayout => cases (skipLayout_of_afterLayout hlayout).symm.trans h
  · next l d tail short hlayout =>
    cases (skipLayout_of_afterLayout hlayout).symm.trans h
    rfl

/-- **A run that ends well goes on with a terminal** there, which its state
takes, and then ends well too. -/
theorem exists_shift_of_run {line line' last : Int} {text rest : List Char} {c : Char}
    (hskip : skipLayout line text = (line', c :: rest)) {state : State} {program : List Stmt}
    (h : run state line last text = .ok program) :
    ∃ t : Terminal, t.matchLength (c :: rest) ≠ 0 ∧ ∃ next stmt,
      state.shift ((c :: rest).take (t.matchLength (c :: rest))) line' t = some (next, stmt) ∧
      ∃ more, run next (line' + ((c :: rest).take (t.matchLength (c :: rest))).count '\n') line'
        (rest.drop (t.matchLength (c :: rest) - 1)) = .ok more ∧ program = stmt.toList ++ more := by
  rw [run_of_skipLayout_cons hskip] at h
  split at h
  · cases h
  · next t hfirst =>
    dsimp only at h
    split at h
    · cases h
    · next next stmt hshift =>
      refine ⟨t, by simpa using List.find?_some hfirst, next, stmt, hshift, ?_⟩
      generalize run next _ _ _ = result at h ⊢
      cases result with
      | error => cases h
      | ok more => exact ⟨more, rfl, (Except.ok.inj h).symm⟩

/-- The line on which the terminal that is refused starts, unless the end
is. -/
def Refusal.startLine? : Refusal → Option Int
  | unexpectedCharacter _ line | unexpectedToken _ line => some line
  | unexpectedEnd _ => none

/-- Where a refusal is in a token list: at the end, or at the first token
that is left, on the line on which that token starts. -/
def Refusal.IsAt (ts : List Token) (r : Refusal) : Prop :=
  match r.startLine? with
  | none => atEnd ts = true
  | some line =>
    ∃ t rest, ts = t :: rest ∧ t.kind ≠ .eof ∧ line = t.line - t.lexeme.toList.count '\n'

/-- Where no terminal starts, the refusal is on the line. -/
theorem startLine?_refuse (c : Char) (rest : List Char) (line : Int) :
    (refuse c rest line).startLine? = some line := by
  unfold refuse
  split <;> rfl

/-- A run over text agrees with one over tokens: it completes the same
statements, or is refused at the token that does not fit. -/
def Agrees (tokens : Except (List Token) (List Stmt)) (source : Except Refusal (List Stmt)) :
    Prop :=
  match tokens with
  | .ok ss => source = .ok ss
  | .error left => ∃ r, source = .error r ∧ r.IsAt left

/-- Runs that agree go on to agree. -/
theorem Agrees.map {tokens : Except (List Token) (List Stmt)}
    {source : Except Refusal (List Stmt)} (h : Agrees tokens source)
    (f : List Stmt → List Stmt) : Agrees (tokens.map f) (source.map f) := by
  match tokens with
  | .ok ss =>
    rw [show source = .ok ss from h]
    rfl
  | .error left =>
    obtain ⟨r, rfl, hr⟩ := h
    exact ⟨r, rfl, hr⟩

/-- A token that does not fit stops the run, and a refusal on its line is
at its place. -/
theorem agrees_of_take_none {state : State} {line : Int} {kind : Kind} {w : List Char}
    (hkind : kind ≠ .eof) (htake : state.take (scanned line kind w) = none) (tokens : List Token)
    {r : Refusal} (hr : r.startLine? = some line) :
    Agrees (runTokens state (scanned line kind w :: tokens)) (.error r) := by
  have hstop : runTokens state (scanned line kind w :: tokens)
      = .error (scanned line kind w :: tokens) := by
    rw [runTokens, htake]
    cases state <;> simp [State.stop, atEnd, hkind]
  rw [hstop]
  refine ⟨r, rfl, ?_⟩
  rw [Refusal.IsAt, hr]
  exact ⟨_, _, rfl, hkind, by simp [scanned]⟩

/-- A text that is not layout is what is left of it. -/
theorem run_equal {state : State} (hstate : ∀ t, state.accepts t = true → startsOperand t = true)
    (line last : Int) (after : List Char) :
    run state line last ('=' :: after) = .error (refuse '=' after line) := by
  have hskip : skipLayout line ('=' :: after) = (line, '=' :: after) := by
    rw [skipLayout]
    · rfl
    · intro rest h
      exact absurd h (by decide)
  have hnone : Terminal.first? (Terminal.all.filter state.accepts) ('=' :: after) = none := by
    refine List.find?_eq_none.2 fun t ht => ?_
    have hstart := hstate t (List.mem_filter.1 ht).2
    have hzero : t.matchLength ('=' :: after) = 0 := by
      cases t <;> first | rfl | exact absurd hstart (by decide)
    simp [hzero]
  rw [run_of_skipLayout_cons hskip, hnone]

/-- **One token**: where it does not fit, the run is refused on the line
where it starts, and else the run goes on from the state that takes it. -/
theorem run_of_read {line' line : Int} {text rest after w : List Char} {c : Char} {kind : Kind}
    (hskip : skipLayout line' text = (line, c :: rest))
    (hread : Piece.read c rest = (.token kind w, after)) (state : State) (last : Int) :
    (state.take (scanned line kind w) = none ∧
      ∃ r, run state line' last text = .error r ∧ r.startLine? = some line) ∨
    ∃ next stmt, state.take (scanned line kind w) = some (next, stmt) ∧
      run state line' last text
        = (run next (line + w.count '\n') line after).map (stmt.toList ++ ·) := by
  have hlex : Lexeme w kind (literal kind w) := by
    cases Piece.Fits.of_read hread with
    | token hlex => exact hlex
  have happ : w ++ after = c :: rest := Piece.append_of_read hread
  rw [run_of_skipLayout_cons hskip, first?_of_read hread]
  rcases hterminal : state.terminal? kind with _ | t
  · exact .inl ⟨take_of_terminal?_none hterminal, _, rfl, startLine?_refuse c rest line⟩
  · obtain ⟨ht, hreads | hsplits⟩ := of_terminal? hterminal
    · -- The terminal takes the whole token, so both runs shift it or neither does.
      have hsize : t.matchLength (c :: rest) = w.length := by
        rw [matchLength_of_read hread t (isKeyword_of_reads hreads), Terminal.takes, if_pos hreads]
      obtain ⟨d, w, rfl, -⟩ := hlex.read_append
      obtain ⟨rfl, hrest : w ++ after = rest⟩ := List.cons.inj happ
      subst hrest
      have hlexeme : (d :: (w ++ after)).take (d :: w).length = d :: w := by simp
      have hafter : (w ++ after).drop ((d :: w).length - 1) = after := by simp
      simp only [hsize, hlexeme, hafter, shift_eq_take ht hreads hlex]
      rcases htake : state.take (scanned line kind (d :: w)) with _ | ⟨next, stmt⟩
      · exact .inl ⟨rfl, _, rfl, rfl⟩
      · exact .inr ⟨next, stmt, rfl, rfl⟩
    · -- The terminal takes one character, and what is left of the token fits nowhere.
      obtain ⟨hreads, hname⟩ := of_splits hsplits
      have hsize : t.matchLength (c :: rest) = 1 := by
        rw [matchLength_of_read hread t fun _ => hname, Terminal.takes, if_neg (by simp [hreads]),
          if_pos hsplits]
      obtain ⟨htake, d, stack, goal, rfl, hline, hshift⟩ := shift_of_splits ht hsplits hlex line
      obtain ⟨rfl, rfl⟩ := List.cons.inj happ
      -- An equals sign is left where an operand must start.
      have hrun : run (.operand stack goal) line line ('=' :: after)
          = .error (refuse '=' after line) :=
        @run_equal (.operand stack goal) (fun _ h => h) line line after
      simp only [hsize, List.take_succ_cons, List.take_zero, hshift, hline, Nat.sub_self,
        List.drop_zero, Int.natCast_zero, Int.add_zero]
      refine .inl ⟨htake, refuse '=' after line, ?_, startLine?_refuse '=' after line⟩
      show (run (.operand stack goal) line line ('=' :: after)).map _ = _
      rw [hrun]
      rfl

/-- Where both runs agree on what follows a token, they agree before it. -/
theorem agrees_of_read {line' line : Int} {text rest after w : List Char} {c : Char}
    {kind : Kind} (hskip : skipLayout line' text = (line, c :: rest))
    (hread : Piece.read c rest = (.token kind w, after)) (tokens : List Token)
    (ih : ∀ next last, Agrees (runTokens next tokens) (run next (line + w.count '\n') last after))
    (state : State) (last : Int) :
    Agrees (runTokens state (scanned line kind w :: tokens)) (run state line' last text) := by
  have hkind : kind ≠ .eof := by
    cases Piece.Fits.of_read hread with
    | token hlex => exact hlex.ne_eof
  rcases run_of_read hskip hread state last with ⟨htake, r, hrun, hr⟩ | ⟨next, stmt, htake, hrun⟩
  · rw [hrun]
    exact agrees_of_take_none hkind htake tokens hr
  · rw [hrun, runTokens, htake]
    exact (ih next line).map _

/-- **Both runs agree** on a text in which the scanner finds no fault. -/
theorem agrees_run (line : Int) (text : List Char) (hfaults : faultsFrom line (cut text) = [])
    (state : State) (last : Int) :
    Agrees (runTokens state (tokensFrom line (cut text))) (run state line last text) := by
  obtain ⟨htokens, hskipped, hgap⟩ := cut_skipLayout line text
  have hshort := (skipLayout_suffix line text).length_le
  rw [htokens]
  rw [hskipped] at hfaults
  -- After layout there is the end, or a piece that is no gap, and so a token.
  rcases hskip : skipLayout line text with ⟨start, _ | ⟨c, rest⟩⟩
  · have hend : ∀ t ∈ [Token.eof start].head?, state.take t = none := by
      intro t ht
      obtain rfl : Token.eof start = t := by simpa using ht
      exact state.take_of_eof rfl
    rw [run_of_skipLayout_nil hskip, cut, tokensFrom, runTokens_of_take_none hend]
    cases state with
    | start => rfl
    | _ => exact ⟨_, rfl, rfl⟩
  · rw [hskip] at hfaults hgap hshort
    have hshort : rest.length + 1 ≤ text.length := hshort
    rcases hread : Piece.read c rest with ⟨p, after⟩
    have hcut : cut (c :: rest) = p :: cut after := by rw [cut, hread]
    have hafter : after.length ≤ rest.length := by
      have := Piece.length_read_le c rest
      rwa [hread] at this
    simp only [hcut] at hfaults ⊢
    cases p with
    | gap gap => exact absurd (by rw [hread]) (hgap c rest rfl gap)
    | stray d => exact absurd hfaults (List.cons_ne_nil _ _)
    | unterminated w => exact absurd hfaults (List.cons_ne_nil _ _)
    | token kind w =>
      exact agrees_of_read hskip hread _
        (agrees_run (start + w.count '\n') after hfaults) state last
termination_by text.length
decreasing_by omega

/-- A strict scan succeeds without faults. -/
theorem result_eq_ok {s : Scan} {ts : List Token} (h : s.result false = .ok ts) :
    s.faults = [] ∧ s.tokens = ts :=
  Scan.result_eq_ok_iff.1 h

/-- **Both ways from source to programs agree**: on a source that the
strict scan accepts, the tokens are read as a program exactly if the
grammar parses the source as that program. -/
theorem parse_scan_iff_grammar (source : String) (ts : List Token)
    (h : (Source.scan source).result false = .ok ts) (program : List Stmt) :
    Program.parse false ts = .ok program ↔ Grammar.parse source = .ok program := by
  obtain ⟨hfaults, rfl⟩ := result_eq_ok h
  have hagrees : Agrees (runTokens .start (scan source).tokens) (Grammar.parse source) :=
    agrees_run 1 source.toList hfaults .start 1
  rw [← runTokens_eq_ok_iff]
  rcases hrun : runTokens .start (scan source).tokens with left | ss
  · rw [hrun] at hagrees
    obtain ⟨r, hr, -⟩ := hagrees
    simp [hr]
  · rw [hrun] at hagrees
    rw [show Grammar.parse source = .ok ss from hagrees, Except.ok.injEq, Except.ok.injEq]

/-- The grammar reads one operator where its unary operators could read
the first character of it, and a unary one after it. -/
theorem grammar_parse_inequality :
    let bangEqual : Token := ⟨.bangEqual, "!=", 1, .null⟩
    let minus : Token := ⟨.minus, "-", 1, .null⟩
    Grammar.parse "a!=-b;"
      = .ok [.expr (.binary (.var "a") bangEqual (.unary minus (.var "b")))] := by
  intro bangEqual minus
  let ts : List Token := [⟨.identifier, "a", 1, .str "a"⟩, bangEqual, minus,
    ⟨.identifier, "b", 1, .str "b"⟩, ⟨.semicolon, ";", 1, .null⟩, .eof 1]
  have hscan : (scan "a!=-b;").result false = .ok ts := by cbv
  have hparse : Program.parse false ts
      = .ok [.expr (.binary (.var "a") bangEqual (.unary minus (.var "b")))] :=
    runTokens_eq_ok_iff.1 rfl
  exact (parse_scan_iff_grammar _ ts hscan _).1 hparse

end Lox.Grammar
