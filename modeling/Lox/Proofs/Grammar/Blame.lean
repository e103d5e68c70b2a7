import Lox.Frontend
import Lox.Proofs.Grammar.Agreement
/-!
# Both ways put the blame on one token

A source that the scanner accepts and the reader of its tokens does not is
refused by the grammar at the token of the reader's first miss. The
automaton over tokens stops there (`blames_entries`), and the parser of the
grammar with it (`agrees_run`); what remains is to find the token in the
list and its beginning in the source.
-/

namespace Lox.Grammar

open Source Program

/-- The tokens of a source end with an end token. -/
theorem exists_eof_tokensFrom (line : Int) (ps : List Piece) :
    ∃ t ∈ tokensFrom line ps, t.kind = .eof := by
  induction ps generalizing line with
  | nil => exact ⟨_, List.mem_singleton_self _, rfl⟩
  | cons p ps ih =>
    obtain ⟨t, ht, heof⟩ := ih (p.endLine line)
    cases p with
    | token kind text => exact ⟨t, List.mem_cons_of_mem _ ht, heof⟩
    | gap | stray | unterminated => exact ⟨t, ht, heof⟩

/-- A refusal where a terminal starts is reported on the line of that, and
not as one of the end. -/
theorem diagnostic_of_startLine? {r : Refusal} {line : Int} (h : r.startLine? = some line) :
    r.diagnostic.line = some line ∧ r.diagnostic.message ≠ "Unexpected end of input." := by
  have hat : ∀ (text rest : String) (c : Char), text.toList[11]? = some c → c ≠ 'e' →
      text ++ rest ≠ "Unexpected end of input." := by
    intro text rest c htext hc heq
    have hend := congrArg (fun s => s.toList[11]?) heq
    rw [String.toList_append, List.getElem?_append_left (List.getElem?_eq_some_iff.1 htext).1,
      htext] at hend
    exact hc (Option.some.inj hend)
  cases r with
  | unexpectedEnd => exact absurd h nofun
  | unexpectedCharacter c start =>
    refine ⟨h, ?_⟩
    rw [Refusal.diagnostic, String.append_assoc]
    exact hat _ _ 'c' rfl (by decide)
  | unexpectedToken text start =>
    refine ⟨h, ?_⟩
    rw [Refusal.diagnostic, String.append_assoc]
    exact hat _ _ 't' rfl (by decide)

/-- A list that is not read as a program has a first miss, and the
automaton stops where that is. -/
theorem runTokens_of_parse_error {single : Bool} {ts : List Token} {faults : List Program.Fault}
    (h : Program.parse single ts = .error faults) :
    ∃ (m : Miss Token) (more : List Program.Fault), faults = m.fault (endLine ts) :: more ∧
      runTokens .start ts = .error m.left := by
  -- A miss of the first declaration is the first of all misses.
  have hmisses : ∃ m misses later, (entries ts).flatMap Entry.misses = m :: misses ++ later ∧
      faults = (m :: misses).map (Miss.fault (endLine ts)) := by
    rw [Program.parse, readAll] at h
    generalize hread : (if single then (entries ts).take 1 else entries ts) = read at h
    have happend : ∃ later, (entries ts).flatMap Entry.misses
        = read.flatMap Entry.misses ++ later := by
      rw [← hread]
      split
      · exact ⟨_, by rw [← List.flatMap_append, List.take_append_drop]⟩
      · exact ⟨[], by simp⟩
    obtain ⟨later, happend⟩ := happend
    rcases hsome : read.flatMap Entry.misses with _ | ⟨m, misses⟩
    · simp only [hsome] at h
      cases h
    · simp only [hsome] at h
      exact ⟨m, misses, later, by rw [happend, hsome], (Except.error.inj h).symm⟩
  obtain ⟨m, misses, later, hmisses, rfl⟩ := hmisses
  have hread := blames_entries ts
  rw [hmisses] at hread
  exact ⟨m, _, rfl, hread⟩

/-- **Both ways blame the same place.** On a source that the strict scan
accepts, let the reader of its tokens record its first fault at the token
`t`, with the tokens `before` it. Then the grammar reports one error: that
the end came too soon, if `t` is the end token, and else another one, on
the line on which `t` begins, which is the line where a scan of the text
before `t` ends. -/
theorem grammar_blames_first_fault (source : String) (ts : List Token)
    (hscan : (Source.scan source).result false = .ok ts) (faults : List Program.Fault)
    (hparse : Program.parse false ts = .error faults) :
    ∃ first more t, faults = first :: more ∧ ts[ts.length - first.left]? = some t ∧
      first.line = t.line ∧
      ∃ rejection d, ({ grammar := true } : Frontend).read source = .error rejection ∧
        rejection.diagnostics = [d] ∧
        (t.kind = .eof → d.name = "ParseError" ∧ d.message = "Unexpected end of input.") ∧
        (t.kind ≠ .eof → d.message ≠ "Unexpected end of input." ∧
          ∃ before after line, source.toList = before ++ t.lexeme.toList ++ after ∧
            (Source.scan (String.ofList before)).result false
              = .ok (ts.take (ts.length - first.left) ++ [Token.eof line]) ∧
            d.line = some line ∧
            (line = first.line ∨ t.kind = .string ∧ '\n' ∈ t.lexeme.toList)) := by
  obtain ⟨hfaults, rfl⟩ := result_eq_ok hscan
  obtain ⟨m, more, rfl, hrun⟩ := runTokens_of_parse_error hparse
  obtain ⟨used, t, rest, hts, hleft⟩ :=
    exists_of_runTokens_error hrun (exists_eof_tokensFrom 1 (cut source.toList))
  have hagrees : Agrees (runTokens .start (scan source).tokens) (Grammar.parse source) :=
    agrees_run 1 source.toList hfaults .start 1
  rw [hrun, hleft] at hagrees
  obtain ⟨r, hparsed, hr⟩ := hagrees
  have hread : ({ grammar := true } : Frontend).read source = .error (.grammar r) := by
    rw [Frontend.read, if_pos rfl, hparsed]
    rfl
  have hfault : m.fault (endLine (scan source).tokens) = ⟨m.expected,
      if t.kind = .eof then none else some (Text.quoted t.lexeme), t.line, rest.length + 1⟩ := by
    rw [Miss.fault, hleft]
    rfl
  have hindex : (scan source).tokens.length - (rest.length + 1) = used.length := by
    rw [hts]
    simp
  rw [hfault]
  refine ⟨_, more, t, rfl, ?_, rfl, .grammar r, r.diagnostic, hread, rfl, ?_, ?_⟩
  · rw [hindex, hts]
    simp
  · intro heof
    rw [Refusal.IsAt] at hr
    cases r with
    | unexpectedEnd line => exact ⟨rfl, rfl⟩
    | unexpectedCharacter c line | unexpectedToken text line =>
      obtain ⟨u, us, heq, hne, -⟩ := hr
      obtain ⟨rfl, -⟩ := List.cons.inj heq
      exact absurd heof hne
  · intro hne
    obtain ⟨line, hline⟩ : ∃ line, r.startLine? = some line := by
      cases r with
      | unexpectedEnd line => exact absurd (eq_of_beq hr) hne
      | unexpectedCharacter c line | unexpectedToken text line => exact ⟨line, rfl⟩
    obtain ⟨hreported, hmessage⟩ := diagnostic_of_startLine? hline
    obtain ⟨u, us, heq, -, hstart⟩ : ∃ u us, t :: rest = u :: us ∧ u.kind ≠ .eof ∧
        line = u.line - u.lexeme.toList.count '\n' := by
      simpa only [Refusal.IsAt, hline] using hr
    obtain ⟨rfl, -⟩ := List.cons.inj heq
    have htext : Tokenized 1 source.toList (scan source).tokens (scan source).faults :=
      tokenized_cut 1 source.toList
    obtain ⟨before, after, hsource, hlex, hbefore, hend⟩ := htext.exists_before hfaults hts hne
    refine ⟨hmessage, before, after, line, hsource, ?_, hreported, ?_⟩
    · -- The text before the token is scanned to the tokens before it.
      obtain ⟨htokens, hnone⟩ := hbefore.eq_cut
      have hbegin : line = 1 + before.count '\n' := by omega
      rw [hindex, hts, List.take_left, hbegin, htokens]
      simp only [scan, Scan.result, Scan.errors, String.toList_ofList, ← hnone]
      rfl
    · by_cases hfeed : '\n' ∈ t.lexeme.toList
      · exact .inr ⟨hlex.kind_of_mem hfeed, hfeed⟩
      · rw [List.count_eq_zero.2 hfeed] at hstart
        exact .inl (by simpa using hstart)

set_option maxRecDepth 1000 in
/-- A string over two lines where an operator must stand: the reader of
tokens gives the line on which it ends, and the grammar that on which it
begins. -/
theorem grammar_blames_string_over_lines :
    ∃ first more rejection d,
      Program.parse false (scan "a \"x\ny\";").tokens = .error (first :: more) ∧
      first.line = 2 ∧ ({ grammar := true } : Frontend).read "a \"x\ny\";" = .error rejection ∧
      rejection.diagnostics = [d] ∧ d.line = some 1 := by
  have hscan : (scan "a \"x\ny\";").result false = .ok [⟨.identifier, "a", 1, .str "a"⟩,
      ⟨.string, "\"x\ny\"", 2, .str "x\ny"⟩, ⟨.semicolon, ";", 2, .null⟩, .eof 2] := by cbv
  have hparse : Program.parse false [⟨.identifier, "a", 1, .str "a"⟩,
      ⟨.string, "\"x\ny\"", 2, .str "x\ny"⟩, ⟨.semicolon, ";", 2, .null⟩, .eof 2]
      = .error [⟨.semicolonAfterExpression, some "'\"x\\ny\"'", 2, 3⟩] := by cbv
  obtain ⟨first, more, t, hfirst, ht, hline, rejection, d, hread, hd, -, hat⟩ :=
    grammar_blames_first_fault _ _ hscan _ hparse
  obtain ⟨rfl, rfl⟩ := List.cons.inj hfirst
  obtain rfl := Option.some.inj ht
  obtain ⟨-, before, after, line, hsource, hbefore, hdline, -⟩ := hat (by decide)
  refine ⟨_, _, rejection, d, (result_eq_ok hscan).2 ▸ hparse, rfl, hread, hd, ?_⟩
  -- Only one place of the source is followed by a quote and an `x`.
  obtain rfl : before = ['a', ' '] := by
    have hlength := congrArg List.length hsource
    clear hat hbefore
    rcases before with _ | ⟨_, _ | ⟨_, _ | ⟨_, _ | ⟨_, before⟩⟩⟩⟩ <;>
      simp [eq_comm] at hsource hlength ⊢ <;> grind
  have hempty : (scan "a ").result false = .ok [⟨.identifier, "a", 1, .str "a"⟩, .eof 1] := by cbv
  have htokens := Except.ok.inj (hempty.symm.trans hbefore)
  have heof : Token.eof 1 = Token.eof line := (List.cons.inj (List.cons.inj htokens).2).1
  rw [hdline, show (1 : Int) = line from congrArg Token.line heof]

end Lox.Grammar
