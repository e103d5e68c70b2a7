import Lox.Proofs.Program.Layout
import Lox.Proofs.Shell.Session
/-!
# Code and commands

Which lines of code the shell carries out. A line that is a program is run,
whatever names it has and whatever layout, with one exception
(`Shell.runs_or_command`): where a comment follows the last semicolon, the
line does not end in one, and if it also starts with a command word, the
shell takes it for the command.
-/

namespace Lox

open Document Source Program

/-! ## How a program ends -/

namespace Program

/-- A program that has statements ends in a semicolon. -/
theorem DerivesProgram.exists_semicolon {ts : List Token} {ss : List Stmt}
    (h : DerivesProgram ts ss) (hss : ss ≠ []) :
    ∃ init semicolon, ts = init ++ [semicolon] ∧ semicolon.kind = .semicolon := by
  induction h with
  | done => exact absurd rfl hss
  | @step ts us s ss hs hrest ih =>
    by_cases hnone : ss = []
    · subst hnone
      cases hrest
      simp only [List.append_nil]
      cases hs with
      | @bare word name semicolon _ _ hsemi => exact ⟨[word, name], semicolon, rfl, hsemi⟩
      | var _ _ _ _ hsemi | print _ _ hsemi | expr _ hsemi => exact ⟨_, _, rfl, hsemi⟩
    · obtain ⟨init, semicolon, rfl, hsemi⟩ := ih hnone
      exact ⟨ts ++ init, semicolon, by simp, hsemi⟩

end Program

/-- A question mark begins nothing, so no text that starts with one is
without faults. -/
theorem Source.Spells.ne_questionMark {line : Int} {rest : List Char} {ts : List Token} :
    ¬ Spells line ('?' :: rest) ts := by
  intro h
  have hfaults := h.tokenized.eq_cut.2
  rw [cut, show Piece.read '?' rest = (.stray '?', rest) from rfl, faultsFrom] at hfaults
  exact List.cons_ne_nil _ _ hfaults.symm

/-- **A program that does not end in a semicolon**, white space aside, ends in
a comment. -/
theorem Frontend.endsInComment_of_read {line : String} {ss : List Stmt}
    (h : ({} : Frontend).read line = .ok ss) (hss : ss ≠ [])
    (hlast : (Unicode.trimRight line.toList).getLast? ≠ some ';') :
    EndsInComment (Unicode.trimRight line.toList) := by
  obtain ⟨ts, hspells, hder⟩ := read_eq_ok_iff.1 h
  obtain ⟨init, semicolon, rfl, hsemi⟩ := hder.exists_semicolon hss
  obtain ⟨tail, happend, htail⟩ := exists_trimRight_append line.toList
  rw [← happend] at hspells
  have hspells := hspells.of_append_spaces htail
  have hne : Unicode.trimRight line.toList ≠ [] := by
    intro hnil
    rw [hnil] at hspells
    exact absurd hspells.eq_nil (by simp)
  refine (hspells.ends_cases hne ?_).resolve_right ?_
  · intro c hc
    rw [Unicode.trimRight, List.getLast?_reverse] at hc
    have := List.head?_dropWhile_not Unicode.isSpace line.toList.reverse
    rw [Option.mem_def.1 hc] at this
    simpa using this
  · rintro ⟨t, ht, before, htext, hlex⟩
    obtain rfl : semicolon = t := by simpa using ht
    rw [hsemi] at hlex
    rw [htext, hlex.eq_of_semicolon] at hlast
    exact hlast (by simp)

/-! ## What a line asks for -/

/-- The words that are commands. -/
def Request.commandWords : List String :=
  ["help", "exit", "EOF"]

/-- The first word of a line. -/
def Request.firstWord (line : String) : String :=
  String.ofList ((Unicode.trim line.toList).takeWhile isCommandChar)

/-- A text that starts with no command word and no question mark is code. -/
theorem Request.ofTrimmed_eq_code {text : List Char} (hne : text ≠ [])
    (hhelp : text.head? ≠ some '?')
    (hword : String.ofList (text.takeWhile isCommandChar) ∉ commandWords) :
    ofTrimmed text = .code (String.ofList text) := by
  simp only [commandWords, List.mem_cons, List.not_mem_nil, or_false, not_or] at hword
  unfold ofTrimmed
  split
  · exact absurd rfl hne
  · exact absurd rfl hhelp
  · split
    · next h => exact absurd h hword.1
    · next h => exact absurd h hword.2.1
    · next h => exact absurd h hword.2.2
    · rfl

/-- A text that starts with a command word is a command. -/
theorem Request.ofTrimmed_of_commandWord {text : List Char}
    (hword : String.ofList (text.takeWhile isCommandChar) ∈ commandWords) :
    ofTrimmed text = help ∨ ofTrimmed text = exit ∨ ofTrimmed text = endOfInput := by
  unfold ofTrimmed
  split
  · exact absurd hword (by decide)
  · exact .inl rfl
  · simp only [commandWords, List.mem_cons, List.not_mem_nil, or_false] at hword
    rcases hword with hword | hword | hword <;> simp [hword]

namespace Shell

/-! ## What a line of code leads to -/

variable {shell : Shell} {line : String} {ss : List Stmt}

/-- **A line runs a program**: what it prints, echoes and leaves behind is
what a run of the statements does. -/
structure Runs (shell : Shell) (line : String) (ss : List Stmt) : Prop where
  stop : (shell.step line).1.stop = false
  misfit : (shell.step line).1.misfit = none
  scope : (shell.step line).2.interpreter.scope
    = (shell.interpreter.run (ss.map Stmt.toNode)).2.scope
  output : (shell.step line).2.interpreter.output
    = (shell.interpreter.run (ss.map Stmt.toNode)).2.output
  /-- The value of a run, if it has one, is shown after what it prints. -/
  completed : ∀ value, (shell.interpreter.run (ss.map Stmt.toNode)).1 = .ok value →
    (shell.step line).1.stdout
        = shell.interpreter.printedSince (shell.interpreter.run (ss.map Stmt.toNode)).2
          ++ (value.elim "" fun v => v.debug ++ "\n") ∧
      (shell.step line).1.stderr = ""
  /-- An error is reported, on the line that it has without the white space
  before the program. -/
  raised : ∀ e, (shell.interpreter.run (ss.map Stmt.toNode)).1 = .error (.error e) →
    (shell.step line).1.stdout
        = shell.interpreter.printedSince (shell.interpreter.run (ss.map Stmt.toNode)).2 ∧
      ∃ k ≤ line.toList.count '\n', (shell.step line).1.stderr
        = "Runtime error: " ++ (e.mapLine (· - k)).text ++ "\n"

/-- A line runs a program that completes if its reply is what the run prints
and a line for its value. -/
theorem Runs.of_completed {value : Option Value} {later : Interpreter}
    (hrun : shell.interpreter.run (ss.map Stmt.toNode) = (.ok value, later))
    (hreply : (shell.step line).1
      = { stdout := shell.interpreter.printedSince later
            ++ (value.elim "" fun v => v.debug ++ "\n") })
    (hscope : (shell.step line).2.interpreter.scope = later.scope)
    (houtput : (shell.step line).2.interpreter.output = later.output) :
    shell.Runs line ss where
  stop := by rw [hreply]
  misfit := by rw [hreply]
  scope := by rw [hrun, hscope]
  output := by rw [hrun, houtput]
  completed value' hvalue := by
    obtain rfl : value = value' := by simpa [hrun] using hvalue
    rw [hrun, hreply]
    exact ⟨rfl, rfl⟩
  raised e he := absurd he (by simp [hrun])

/-- It runs a program that fails if its reply is what the run prints and a line
for the error. -/
theorem Runs.of_raised {e : RuntimeError} {later : Interpreter}
    (hrun : shell.interpreter.run (ss.map Stmt.toNode) = (.error (.error e), later)) {k : Nat}
    (hk : k ≤ line.toList.count '\n')
    (hreply : (shell.step line).1
      = ⟨shell.interpreter.printedSince later,
          "Runtime error: " ++ (e.mapLine (· - k)).text ++ "\n", false, none⟩)
    (hscope : (shell.step line).2.interpreter.scope = later.scope)
    (houtput : (shell.step line).2.interpreter.output = later.output) :
    shell.Runs line ss where
  stop := by rw [hreply]
  misfit := by rw [hreply]
  scope := by rw [hrun, hscope]
  output := by rw [hrun, houtput]
  completed value hvalue := absurd hvalue (by simp [hrun])
  raised e' he := by
    obtain rfl : e = e' := by simpa [hrun] using he
    rw [hrun, hreply]
    exact ⟨rfl, k, hk, rfl⟩

/-- Code that is the program on other lines runs it. -/
theorem Idle.runs (h : shell.Idle) {text : String} (hstep : shell.step line = shell.runCode text)
    {k : Nat} (hk : k ≤ line.toList.count '\n')
    (hread : ({} : Frontend).read text = .ok (ss.map (Stmt.mapLine (· - k)))) :
    shell.Runs line ss := by
  -- The program and the code run in accord, so what the code does the program does.
  have haccord : Interpreter.Accord (· - k) 0
      (shell.interpreter.run ((ss.map (Stmt.mapLine (· - k))).map Stmt.toNode))
      (shell.interpreter.run (ss.map Stmt.toNode)) :=
    (Interpreter.follows_self h.level h.ready.error _).runFrom none ss
  have hprinted {later given : Interpreter} (hfollows : later.Follows (· - k) 0 given) :
      shell.interpreter.printedSince later = shell.interpreter.printedSince given := by
    rw [Interpreter.printedSince, hfollows.output, Interpreter.printedSince]
  rcases h.runCode_cases hread with
    ⟨value, later, hrun, hcode, -⟩ | ⟨e, later, hrun, hcode, hreset, -⟩ <;>
    rcases haccord.cases with
      ⟨_, given, _, hgiven, hlater, hfollows⟩ | ⟨failure, given, _, hgiven, hlater, hfollows⟩ <;>
    obtain ⟨hresult, rfl⟩ := Prod.mk.inj (hrun.symm.trans hlater)
  · obtain rfl := Except.ok.inj hresult
    refine .of_completed hgiven ?_ ?_ ?_ <;> rw [hstep, hcode]
    · rw [hprinted hfollows]
    · exact hfollows.scope
    · exact hfollows.output
  · cases hresult
  · cases hresult
  · obtain ⟨own, rfl, rfl⟩ : ∃ own, failure = .error own ∧ e = own.mapLine (· - k) := by
      cases failure with
      | error own => exact ⟨own, rfl, by simpa [Failure.mapLine] using hresult⟩
      | misfit => simp [Failure.mapLine] at hresult
    refine .of_raised hgiven hk ?_ ?_ ?_ <;> rw [hstep, hcode]
    · rw [hprinted hfollows]
    · simpa [hreset] using hfollows.scope
    · simpa [hreset] using hfollows.output

/-- **A line that is a program is run**, or it starts with a command word and
ends in a comment; only then is it the command, which does nothing to the
session. -/
theorem Idle.runs_cases (h : shell.Idle) (hread : ({} : Frontend).read line = .ok ss)
    (hss : ss ≠ []) :
    shell.Runs line ss ∨
      Request.firstWord line ∈ Request.commandWords ∧
        EndsInComment (Unicode.trimRight line.toList) ∧
        (shell.step line).2 = shell ∧
        ((shell.step line).1.stop = true ∨ (shell.step line).1.stdout = helpText) := by
  by_cases hlast : (Unicode.trimRight line.toList).getLast? = some ';'
  · -- The line is taken as it is.
    have hcode : shell.step line = shell.runCode line := by
      rw [Shell.step, Request.ofLine, if_pos hlast]
    refine .inl (h.runs (k := 0) hcode (Nat.zero_le _) ?_)
    simpa [← Function.id_def] using hread
  · have hline : Request.ofLine line = Request.ofTrimmed (Unicode.trim line.toList) := by
      rw [Request.ofLine, if_neg hlast]
    by_cases hword : Request.firstWord line ∈ Request.commandWords
    · refine .inr ⟨hword, Frontend.endsInComment_of_read hread hss hlast, ?_⟩
      rcases Request.ofTrimmed_of_commandWord hword with hrequest | hrequest | hrequest <;>
        simp only [Shell.step, hline, hrequest, true_and]
      · exact .inr trivial
      · exact .inl trivial
      · exact .inl trivial
    · -- The line is taken without the white space around it.
      have htrimmed := Frontend.read_trim hread
      have hcode : shell.step line
          = shell.runCode (String.ofList (Unicode.trim line.toList)) := by
        obtain ⟨ts, hspells, hder⟩ := Frontend.read_eq_ok_iff.1 htrimmed
        rw [String.toList_ofList] at hspells
        rw [Shell.step, hline, Request.ofTrimmed_eq_code ?_ ?_ hword]
        · intro hnil
          rw [hnil] at hspells
          obtain rfl := hspells.eq_nil
          obtain ⟨init, semicolon, hnone, -⟩ := hder.exists_semicolon (by simpa using hss)
          exact absurd hnone (by simp)
        · intro hhead
          obtain ⟨rest, hrest⟩ := List.head?_eq_some_iff.1 hhead
          rw [hrest] at hspells
          exact hspells.ne_questionMark
      exact .inl (h.runs hcode ((List.takeWhile_sublist _).count_le _) htrimmed)

/-- **In a session of any length** a line that is a program is run, unless
it starts with a command word and ends in a comment. -/
theorem runs_or_command (earlier : List String) {line : String} {ss : List Stmt}
    (hread : ({} : Frontend).read line = .ok ss) (hss : ss ≠ []) :
    (({} : Shell).after earlier).Runs line ss ∨
      Request.firstWord line ∈ Request.commandWords ∧
        EndsInComment (Unicode.trimRight line.toList) ∧
        ((({} : Shell).after earlier).step line).2 = ({} : Shell).after earlier ∧
        (((({} : Shell).after earlier).step line).1.stop = true ∨
          ((({} : Shell).after earlier).step line).1.stdout = helpText) :=
  (idle_fresh.after earlier).runs_cases hread hss

/-- A session in which a command word is a name. -/
def exitSession : Shell :=
  ({} : Shell).after ["var exit = true;"]

set_option maxRecDepth 2000 in
/-- A program whose first word is no command is run there, although it ends in
a comment about one: it prints nil, and its value is shown. -/
theorem runs_print_before_comment :
    exitSession.Runs " print nil; exit; // exit" [.print (.literal .nil), .expr (.var "exit")]
      ∧ (exitSession.step " print nil; exit; // exit").1.stdout = "Nil\nBool(true)\n" := by
  have hread : ({} : Frontend).read " print nil; exit; // exit"
      = .ok [.print (.literal .nil), .expr (.var "exit")] := by cbv
  have hfirst : Request.firstWord " print nil; exit; // exit" = "print" := by cbv
  have hruns := (runs_or_command ["var exit = true;"] hread (List.cons_ne_nil _ _)).resolve_right
    fun hcommand => absurd (hfirst ▸ hcommand.1) (by decide)
  let body := [Stmt.print (.literal .nil), .expr (.var "exit")].map Stmt.toNode
  have hvalue : (exitSession.interpreter.run body).1 = .ok (some (.atom (.bool true))) := by cbv
  have hprinted : exitSession.interpreter.printedSince (exitSession.interpreter.run body).2
      = "Nil\n" := by cbv
  refine ⟨hruns, ?_⟩
  rw [exitSession] at hvalue hprinted ⊢
  rw [(hruns.completed _ hvalue).1, hprinted]
  rfl

/-- A name with a comment after it is not evaluated but taken for the
command. -/
theorem not_runs_exit_before_comment :
    ({} : Frontend).read "exit; // x" = .ok [.expr (.var "exit")] ∧
      ¬ (({} : Shell).after ["var exit = 4;"]).Runs "exit; // x" [.expr (.var "exit")] := by
  refine ⟨by cbv, fun h => ?_⟩
  have hlast : (Unicode.trimRight "exit; // x".toList).getLast? = some 'x' := by cbv
  have htrim : Unicode.trim "exit; // x".toList = "exit; // x".toList := by cbv
  have hline : Request.ofLine "exit; // x" = .exit := by
    rw [Request.ofLine, hlast, if_neg (by decide), htrim]
    rfl
  have hstop := h.stop
  rw [step, hline] at hstop
  exact absurd hstop (by decide)

end Shell

end Lox
