import Lox.Proofs.CommandLine.SavedTree
import Lox.Proofs.Text.Line
/-!
# Rejected source files

A source file that is not accepted leaves nothing but reports, each on a
line of its own (`Options.onlyReports_of_rejects`): which options were given
and which mode reads the file only decide what is reported. In the other
direction every command that ends with code one has reported something
(`Outcome.Explained`), which is followed through the parts of a command.
-/

namespace Lox.CommandLine

open Document

/-! ## Source files -/

namespace Options

/-- The file that is read as source, if any is. A saved program is none. -/
def sourceFile? (o : Options) : Option String :=
  match o.fileOption? with
  | some (.tokens, path) | some (.printTree, path) | some (.emitTree, path) => some path
  | some _ => none
  | none => o.programFile?

/-- The frontend that a source file is given to. Tokens are listed without
the grammar. -/
def sourceFrontend (o : Options) : Frontend :=
  match o.fileOption? with
  | some (.tokens, _) => { o.frontend with grammar := false }
  | _ => o.frontend

/-- **The options reject a source.** Where only its tokens are listed, the
scan has to. -/
def Rejects (o : Options) (source : String) (r : Rejection) : Prop :=
  match o.fileOption? with
  | some (.tokens, _) => o.sourceFrontend.tokens source = .error r
  | _ => o.sourceFrontend.read source = .error r

end Options

/-- **An outcome that is nothing but reports**: a failure that writes to
standard error only, one line for each notice and then for each error. -/
structure Outcome.OnlyReports (outcome : Outcome) (notices : List String)
    (errors : List Diagnostic) : Prop where
  status : outcome.status = .exit 1
  stdout : outcome.stdout = ""
  writes : outcome.writes = []
  stderr : outcome.stderr = linesText (notices ++ errors.map Diagnostic.text)
  lines : ∀ report ∈ notices ++ errors.map Diagnostic.text, Text.IsLine report
  count : outcome.stderr.toList.count '\n' = notices.length + errors.length
  some_error : errors ≠ []

/-- A source is not read if its tokens are not. -/
theorem read_of_tokens_error {f : Frontend} (hf : f.grammar = false) {source : String}
    {r : Rejection} (h : f.tokens source = .error r) : f.read source = .error r := by
  rw [Frontend.read, hf, h]
  rfl

/-- What is rejected is only reported. -/
theorem onlyReports_rejected {f : Frontend} {source : String} {r : Rejection}
    (h : f.read source = .error r) :
    (rejected (f.notices source) r).OnlyReports (f.notices source) r.diagnostics := by
  have hstderr : (rejected (f.notices source) r).stderr
      = linesText (f.notices source ++ r.diagnostics.map Diagnostic.text) :=
    (linesText_append _ _).symm
  refine ⟨rfl, rfl, rfl, hstderr, Frontend.isLine_of_mem_reports h, ?_,
    Frontend.diagnostics_ne_nil h⟩
  rw [hstderr, Frontend.count_newline_reports h]

namespace Options

variable {o : Options} {look : String → Entry} {path contents source : String} {r : Rejection}

/-- Tokens that are rejected are not listed. -/
theorem listTokens_of_error {f : Frontend} (hf : { o.frontend with grammar := false } = f)
    (h : f.tokens source = .error r) : o.listTokens source = rejected (f.notices source) r := by
  subst hf
  simp only [listTokens, h]

/-- **A source file that the options reject is only reported**, in each of the
modes that read one. -/
theorem onlyReports_of_rejects (hpath : o.sourceFile? = some path)
    (hlook : look (normalize path) = .text contents)
    (hsource : String.ofList (unifyLineEnds contents.toList) = source)
    (hrejects : o.Rejects source r) (input : List String) :
    (o.run look input).OnlyReports (o.sourceFrontend.notices source) r.diagnostics := by
  rw [sourceFile?] at hpath
  rw [Rejects, sourceFrontend] at hrejects
  rw [sourceFrontend]
  have hfile (next : String → Outcome) : withFile look path next = next source := by
    rw [withFile_of_text hlook, hsource]
  -- The modes that read the whole program go on with it in the same way.
  have hprogram (next : List Stmt → Outcome) (h : o.frontend.read source = .error r) :
      (o.withProgram source next).OnlyReports (o.frontend.notices source) r.diagnostics := by
    rw [withProgram_of_error rfl h]
    exact onlyReports_rejected h
  rcases hoption : o.fileOption? with _ | ⟨s, file⟩ <;> rw [hoption] at hpath hrejects
  · simp only [run, hoption, show o.programFile? = some path from hpath, hfile]
    exact hprogram _ hrejects
  · cases s <;> cases hpath
    case some.tokens.refl =>
      simp only [run, hoption, hfile]
      rw [listTokens_of_error rfl hrejects]
      exact onlyReports_rejected (read_of_tokens_error rfl hrejects)
    case some.printTree.refl =>
      simp only [run, hoption, hfile]
      exact hprogram _ hrejects
    case some.emitTree.refl =>
      simp only [run, hoption, hfile]
      exact hprogram _ hrejects

end Options

/-! ## Failures are explained -/

/-- A command that ends with code one has written a line to standard error. -/
def Outcome.Explained (outcome : Outcome) : Prop :=
  outcome.status = .exit 1 → '\n' ∈ outcome.stderr.toList

/-- What does not end with code one has nothing to explain. -/
theorem Outcome.Explained.of_status {outcome : Outcome} (h : outcome.status ≠ .exit 1) :
    outcome.Explained :=
  fun hexit => absurd hexit h

/-- What is only reported is explained. -/
theorem Outcome.OnlyReports.explained {outcome : Outcome} {notices : List String}
    {errors : List Diagnostic} (h : outcome.OnlyReports notices errors) : outcome.Explained := by
  intro _
  have := List.length_pos_iff.2 h.some_error
  have := h.count
  exact List.count_pos_iff.1 (by omega)

variable {look : String → Entry} {path : String}

/-- A file that is not found is explained; what is found is gone on with. -/
theorem explained_withFile {next : String → Outcome} (h : ∀ source, (next source).Explained) :
    (withFile look path next).Explained := by
  rw [withFile]
  split
  · intro _
    simp
  · exact .of_status (by simp)
  · exact .of_status (by simp)
  · exact h _

/-- A file that cannot be written does not end with a code. -/
theorem explained_withTarget {next : Outcome} (h : next.Explained) :
    (withTarget look path next).Explained := by
  rw [withTarget]
  split
  · exact .of_status (by simp)
  · exact .of_status (by simp)
  · exact h
  · exact h

namespace Options

variable {o : Options}

/-- Nor does a trace. -/
theorem explained_withTrace {next : Outcome} (h : next.Explained) :
    (o.withTrace look next).Explained := by
  rw [withTrace]
  split
  · exact explained_withTarget h
  · exact h

/-- A rejected source is explained by its errors. -/
theorem explained_withProgram {next : List Stmt → Outcome} (h : ∀ program, (next program).Explained)
    (source : String) : (o.withProgram source next).Explained := by
  rcases hread : o.frontend.read source with r | program
  · rw [withProgram_of_error rfl hread]
    exact (onlyReports_rejected hread).explained
  · rw [withProgram_of_ok rfl hread]
    intro hexit
    rw [String.toList_append]
    exact List.mem_append_right _ (h program hexit)

/-- A program that fails is explained by its error. -/
theorem explained_execute (stmts : List Node) : (o.execute look stmts).Explained := by
  refine explained_withTrace ?_
  dsimp only
  split
  · exact .of_status (by simp)
  · next e _ =>
    intro _
    -- The text of an error ends its line.
    have hline : Shell.errorText e = "Runtime error: " ++ e.text ++ "\n" := rfl
    simp [hline]
  · exact .of_status (by simp)

/-- So are tokens that cannot be listed. -/
theorem explained_listTokens (source : String) : (o.listTokens source).Explained := by
  rw [listTokens]
  dsimp only
  split
  · next r htokens =>
    exact (onlyReports_rejected (read_of_tokens_error rfl htokens)).explained
  · exact .of_status (by simp)

/-- Listing statements does not end with code one. -/
theorem explained_listStatements (program : List Stmt) : (listStatements program).Explained := by
  refine .of_status ?_
  induction program with
  | nil => simp [listStatements]
  | cons s rest ih =>
    rw [listStatements]
    split
    · exact ih
    · simp

/-- Nor does writing a document. -/
theorem explained_emitTree (program : List Stmt) : (emitTree look path program).Explained := by
  refine explained_withTarget (.of_status ?_)
  dsimp only
  split <;> simp

/-- **Whatever the options ask for, a failure is explained.** -/
theorem explained_run (input : List String) : (o.run look input).Explained := by
  rw [run]
  split
  · exact explained_withFile explained_listTokens
  · exact explained_withFile (explained_withProgram explained_listStatements)
  · exact explained_withFile (explained_withProgram explained_emitTree)
  · refine explained_withFile fun text => ?_
    rw [runTree]
    split
    · exact .of_status (by simp)
    · split
      · exact .of_status (by simp)
      · exact explained_execute _
  · exact explained_withFile (explained_withProgram fun _ => explained_execute _)
  · refine explained_withTrace (.of_status ?_)
    dsimp only
    split <;> simp

end Options

/-- **A rejected program has no effect**: whatever the arguments are, if they
name a source file that is rejected under them, the command writes nothing
but a line for each notice and each error. And no command ends with code one
without a line on standard error. -/
theorem rejected_has_no_effect (arguments : List String) (look : String → Entry)
    (input : List String) :
    (∀ o path contents source r, parseArguments arguments = .ok o → o.sourceFile? = some path →
      look (normalize path) = .text contents →
      String.ofList (unifyLineEnds contents.toList) = source → o.Rejects source r →
      (run arguments look input).OnlyReports (o.sourceFrontend.notices source) r.diagnostics) ∧
    ((run arguments look input).status = .exit 1 →
      '\n' ∈ (run arguments look input).stderr.toList) := by
  constructor
  · intro o path contents source r harguments hpath hlook hsource hrejects
    rw [run, harguments]
    exact Options.onlyReports_of_rejects hpath hlook hsource hrejects input
  · rw [run]
    split
    · exact Options.explained_run input
    · intro hexit
      cases hexit
    · intro hexit
      cases hexit

/-- Files with a string over two lines where a semicolon is missing, after a
stray character. -/
def rejectedFiles (path : String) : Entry :=
  if path = "a.lox" then .text "print @nil \"x\r\ny\";" else .missing

set_option maxRecDepth 2000 in
/-- In each mode that reads the program, the error that quotes the string is
one line after the notice. -/
theorem rejected_string_over_lines :
    ∀ mode ∈ [[], ["--print-ast"], ["--emit-ast"]],
      (run (["-v", "--lenient"] ++ mode ++ ["a.lox"]) rejectedFiles []).OnlyReports
        ["[line 1] Unexpected character '@'"]
        [⟨"ParseError", "Expect ';' after value. (at '\"x\\ny\"')", some 2⟩] := by
  have hread : ({ lenient := true } : Frontend).read "print @nil \"x\ny\";"
      = .error (.program [⟨.semicolonAfterValue, some "'\"x\\ny\"'", 2, 3⟩]) := by cbv
  have hnotices : ({ lenient := true } : Frontend).notices "print @nil \"x\ny\";"
      = ["[line 1] Unexpected character '@'"] := by cbv
  have hreported (arguments : List String) (o : Options)
      (harguments : parseArguments arguments = .ok o) (hfile : o.sourceFile? = some "a.lox")
      (hrejects : o.Rejects "print @nil \"x\ny\";"
        (.program [⟨.semicolonAfterValue, some "'\"x\\ny\"'", 2, 3⟩]))
      (hfrontend : o.sourceFrontend = { lenient := true }) :
      (run arguments rejectedFiles []).OnlyReports ["[line 1] Unexpected character '@'"]
        [⟨"ParseError", "Expect ';' after value. (at '\"x\\ny\"')", some 2⟩] := by
    have h := (rejected_has_no_effect arguments rejectedFiles []).1 o "a.lox" _ _ _ harguments
      hfile rfl (by cbv) hrejects
    rwa [hfrontend, hnotices] at h
  simp only [List.forall_mem_cons]
  refine ⟨?_, ?_, ?_, List.forall_mem_nil _⟩
  · exact hreported _ { verbosity := 1, lenient := true, program := some "a.lox" } (by cbv)
      (by cbv) hread rfl
  · exact hreported _ { verbosity := 1, lenient := true, file := some (.printTree, "a.lox") }
      (by cbv) (by cbv) hread rfl
  · exact hreported _ { verbosity := 1, lenient := true, file := some (.emitTree, "a.lox") }
      (by cbv) (by cbv) hread rfl

end Lox.CommandLine
