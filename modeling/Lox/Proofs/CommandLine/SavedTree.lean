import Lox.Proofs.CommandLine.Arguments
import Lox.Proofs.CommandLine.Path
import Lox.Proofs.Document.RoundTrip
import Lox.Proofs.Json.Controls
/-!
# Running a saved program

A program that is saved as a document and run from there does what its source does
(`run_saved_tree`): the document is found under the path that was written, its text is read as it
is, and it is the document of the same statements. What stands in the way is the command line: a
path that starts with a dash may be no value to it (`run_saved_tree_dashed`), and then the document
has to be named in another way.
-/

namespace Lox.CommandLine

open Document

/-! ## The document of an accepted program -/

/-- Text without carriage returns is left as it is. -/
theorem unifyLineEnds_of_not_mem {text : List Char} (h : '\r' ∉ text) :
    unifyLineEnds text = text := by
  fun_induction unifyLineEnds text with
  | case1 => rfl
  | case2 rest ih => exact absurd List.mem_cons_self h
  | case3 c rest _ ih =>
    rw [List.mem_cons, not_or] at h
    rw [if_neg (Ne.symm h.1), ih h.2]

/-- The text of a document is read from a file as it is. -/
theorem unifyLineEnds_pretty {document : Json} {text : String} (h : document.pretty = .ok text) :
    String.ofList (unifyLineEnds text.toList) = text := by
  rw [Json.pretty_eq] at h
  split_ifs at h
  obtain rfl := Except.ok.inj h
  have hreturn : '\r' ∉ document.writeLines.text := by
    intro hmem
    rcases Json.mem_writeLines document _ hmem with h | h <;> exact absurd h (by decide)
  rw [String.toList_ofList, unifyLineEnds_of_not_mem hreturn]

/-- **The document of an accepted program is parsed from its text**: the
literals of its operators are null. -/
theorem parse_pretty_of_read {f : Frontend} {source text : String} {program : List Stmt}
    (h : f.read source = .ok program)
    (htext : (encodeProgram (program.map Stmt.toNode)).pretty = .ok text) :
    Json.parse text = .ok (encodeProgram (program.map Stmt.toNode)) := by
  refine Json.parse_pretty ((distinct_encodeProgram program).2 fun s hs t ht => ?_) htext
  rw [(Frontend.operators_of_read h s hs t ht).literal]
  trivial

/-! ## What a run looks at -/

/-- What is found once the files of an outcome are written. -/
def Outcome.found (outcome : Outcome) (look : String → Entry) (path : String) : Entry :=
  match outcome.writes.lookup path with
  | some contents => .text contents
  | none => look path

namespace Options

/-- Statements are executed alike under options that trace alike. -/
theorem execute_congr {o o' : Options} (hverbosity : o.verbosity = o'.verbosity)
    {look look' : String → Entry} (hlook : look traceFile = look' traceFile) (body : List Node) :
    o.execute look body = o'.execute look' body := by
  simp only [execute, withTrace, withTarget, hverbosity, hlook]

/-- An accepted program is gone on with. -/
theorem withProgram_of_ok {o : Options} {f : Frontend} (hf : o.frontend = f) {source : String}
    {program : List Stmt} (h : f.read source = .ok program) (next : List Stmt → Outcome) :
    o.withProgram source next = { next program with
      stderr := linesText (f.notices source) ++ (next program).stderr } := by
  subst hf
  simp only [withProgram, h]

/-- A rejected one is not. -/
theorem withProgram_of_error {o : Options} {f : Frontend} (hf : o.frontend = f) {source : String}
    {r : Rejection} (h : f.read source = .error r) (next : List Stmt → Outcome) :
    o.withProgram source next = rejected (f.notices source) r := by
  subst hf
  simp only [withProgram, h]

/-- A document that is written without a crash is written as a whole. -/
theorem emitTree_of_exit {look : String → Entry} {path : String} {program : List Stmt} {code : Nat}
    (h : (emitTree look path program).status = .exit code) :
    ∃ text, (encodeProgram (program.map Stmt.toNode)).pretty = .ok text ∧
      emitTree look path program
        = { stdout := treePath path ++ "\n", writes := [(treePath path, text)] } := by
  rw [emitTree, withTarget] at h ⊢
  rw [Json.pretty, Json.Written.whole]
  cases hentry : look (treePath path) with
  | directory | tooLong => simp [hentry] at h
  | missing | text =>
    cases hflaw : (encodeProgram (program.map Stmt.toNode)).writeLines.flaw with
    | none => exact ⟨_, rfl, by simp only [hflaw]⟩
    | some flaw => simp [hentry, hflaw] at h

/-- A document is not written where the trace is. -/
theorem treePath_ne_traceFile (path : String) : treePath path ≠ traceFile := by
  intro h
  have hlast := congrArg (fun s => s.toList.getLast?) h
  simp [treePath, traceFile] at hlast

/-- Nor is it written where the empty path leads. -/
theorem treePath_ne_dot (path : String) : treePath path ≠ normalize "" := by
  intro h
  have hlast := congrArg (fun s => s.toList.getLast?) h
  simp [treePath, show normalize "" = "." from rfl] at hlast

end Options

/-- A file that is found is gone on with. -/
theorem withFile_of_text {look : String → Entry} {path contents : String}
    (h : look (normalize path) = .text contents) (next : String → Outcome) :
    withFile look path next = next (String.ofList (unifyLineEnds contents.toList)) := by
  simp only [withFile, h]

/-- A run with an option that names a file. -/
theorem run_file (flags : List Flag) {spelling : String} {s : Switch}
    (hspelling : Argument.ofText spelling = .switch s none) (hs : s ≠ .frontend)
    (htakes : s.takesValue = true) (path : String) (look : String → Entry) (input : List String) :
    run (flagTexts flags ++ [spelling, path]) look input
      = match Argument.ofText path with
        | .value _ => ({ setFlags flags {} with file := some (s, path) } : Options).run look input
        | _ => { status := .exit 2 } := by
  rw [run, parseArguments_file flags hspelling hs htakes]
  cases Argument.ofText path <;> rfl

/-- An option that names a file is carried out. -/
theorem fileOption?_eq {o : Options} {s : Switch} {path : String} (hpath : path ≠ "") :
    ({ o with file := some (s, path) } : Options).fileOption? = some (s, path) :=
  Option.filter_some_pos (by simpa using hpath)

/-- What running an accepted program comes to. -/
theorem run_program {o : Options} {path : String} (hfile : o.fileOption? = none)
    (hprogram : o.programFile? = some path) {look : String → Entry} {contents : String}
    (hlook : look (normalize path) = .text contents) {program : List Stmt}
    (hread : o.frontend.read (String.ofList (unifyLineEnds contents.toList)) = .ok program)
    (input : List String) :
    o.run look input = { o.execute look (program.map Stmt.toNode) with
      stderr := linesText (o.frontend.notices (String.ofList (unifyLineEnds contents.toList)))
        ++ (o.execute look (program.map Stmt.toNode)).stderr } := by
  simp only [Options.run, hfile, hprogram]
  rw [withFile_of_text hlook, Options.withProgram_of_ok rfl hread]

/-- **What saving a program comes to**, if it succeeds. -/
theorem run_emitTree {flags : List Flag} {path : String} {look : String → Entry}
    {input : List String} (hpath : path ≠ "")
    (h : (run (flagTexts flags ++ ["--emit-ast", path]) look input).status = .exit 0) :
    Argument.ofText path = .value path ∧ ∃ contents program text,
      look (normalize path) = .text contents ∧
      (setFlags flags {}).frontend.read (String.ofList (unifyLineEnds contents.toList))
        = .ok program ∧
      (encodeProgram (program.map Stmt.toNode)).pretty = .ok text ∧
      run (flagTexts flags ++ ["--emit-ast", path]) look input =
        { stdout := Options.treePath path ++ "\n"
          stderr := linesText ((setFlags flags {}).frontend.notices
            (String.ofList (unifyLineEnds contents.toList)))
          writes := [(Options.treePath path, text)] } := by
  rw [run_file flags (s := .emitTree) rfl (by simp) rfl] at h ⊢
  rcases hvalue : Argument.ofText path with value | _ | _ | _ | _ | _ <;> rw [hvalue] at h
  case value =>
    obtain rfl := ofText_eq_value hvalue
    refine ⟨rfl, ?_⟩
    simp only [Options.run, fileOption?_eq hpath] at h ⊢
    generalize ho : ({ setFlags flags {} with file := some (.emitTree, value) } : Options) = o
      at h ⊢
    have hf : o.frontend = (setFlags flags {}).frontend := by rw [← ho]; rfl
    cases hlook : look (normalize value) with
    | missing | directory | tooLong => simp [withFile, hlook] at h
    | text contents =>
      rw [withFile_of_text hlook] at h ⊢
      cases hread : (setFlags flags {}).frontend.read
          (String.ofList (unifyLineEnds contents.toList)) with
      | error r =>
        rw [Options.withProgram_of_error hf hread] at h
        cases h
      | ok program =>
        rw [Options.withProgram_of_ok hf hread] at h
        obtain ⟨text, htext, hemit⟩ := Options.emitTree_of_exit h
        refine ⟨contents, program, text, rfl, hread, htext, ?_⟩
        rw [Options.withProgram_of_ok hf hread, hemit]
        simp
  all_goals cases h

/-- **A saved program runs as its source does.** If a source is saved under
some options, then running the written document, by any name that the command
line takes as a value and under any options that trace as much, has the
outputs, the status and the trace of running the source under the options it
was saved with; only the notices of the source come from the first run, which
wrote them already. -/
theorem run_saved_tree (flags again : List Flag) (path document : String) (look : String → Entry)
    (input : List String)
    (hagain : (setFlags again {}).verbosity = (setFlags flags {}).verbosity) (hpath : path ≠ "")
    (hdocument : normalize document = Options.treePath path)
    (hvalue : Argument.ofText document = .value document)
    (hemit : (run (flagTexts flags ++ ["--emit-ast", path]) look input).status = .exit 0) :
    let emitted := run (flagTexts flags ++ ["--emit-ast", path]) look input
    let saved := run (flagTexts again ++ ["--ast", document]) (emitted.found look) input
    run (flagTexts flags ++ [path]) look input
        = { saved with stderr := emitted.stderr ++ saved.stderr }
      ∧ ∃ contents, look (normalize path) = .text contents ∧
        emitted.stderr = linesText ((setFlags flags {}).frontend.notices
          (String.ofList (unifyLineEnds contents.toList))) := by
  obtain ⟨hvalue', contents, program, text, hlook, hread, htext, hrun⟩ := run_emitTree hpath hemit
  intro emitted saved
  rw [show emitted = _ from hrun]
  -- The written document is all that has changed.
  have hfound : emitted.found look (normalize document) = .text text := by
    rw [hdocument, show emitted = _ from hrun]
    simp [Outcome.found]
  have htrace : emitted.found look traceFile = look traceFile := by
    rw [show emitted = _ from hrun]
    have hne : (traceFile == Options.treePath path) = false := by
      simpa using (Options.treePath_ne_traceFile path).symm
    simp [Outcome.found, List.lookup, hne]
  have hsaved : saved = (setFlags flags {}).execute look (program.map Stmt.toNode) := by
    have hname : document ≠ "" := by
      rintro rfl
      exact Options.treePath_ne_dot path hdocument.symm
    rw [show saved = _ from run_file again (s := .runTree) rfl (by simp) rfl _ _ _, hvalue]
    simp only [Options.run, fileOption?_eq hname]
    rw [withFile_of_text hfound, unifyLineEnds_pretty htext, Options.runTree,
      parse_pretty_of_read hread htext]
    simp only [decodeProgram_encodeProgram]
    exact Options.execute_congr hagain htrace _
  have hfile : ({ setFlags flags {} with program := some path } : Options).fileOption? = none := by
    rw [Options.fileOption?, (file_setFlags flags {}).1]
    rfl
  refine ⟨?_, contents, hlook, rfl⟩
  rw [run, parseArguments_program flags hvalue', hsaved]
  exact run_program hfile (Option.filter_some_pos (by simpa using hpath)) hlook hread input

/-- A file with a stray character, and an operator that fails on the second
line. -/
def sampleFiles (path : String) : Entry :=
  if path = "a.lox" then .text "@print nil;\nprint \"\u00e9\" - nil;" else .missing

set_option maxRecDepth 2000 in
/-- It fails in the same way once it is saved, with the same trace. -/
theorem run_saved_tree_sample :
    let flags : List Flag := [.lenient, .verbose]
    let emitted := run (flagTexts flags ++ ["--emit-ast", "a.lox"]) sampleFiles []
    let saved := run (flagTexts [.verbose] ++ ["--ast", "./a.lox.ast.json"])
      (emitted.found sampleFiles) []
    emitted.status = .exit 0
      ∧ run (flagTexts flags ++ ["a.lox"]) sampleFiles []
        = { saved with stderr := emitted.stderr ++ saved.stderr } := by
  have hemit : (run (flagTexts [.lenient, .verbose] ++ ["--emit-ast", "a.lox"]) sampleFiles
      []).status = .exit 0 := by cbv
  exact ⟨hemit, (run_saved_tree [.lenient, .verbose] [.verbose] "a.lox" "./a.lox.ast.json"
    sampleFiles [] rfl (by decide) (by decide) rfl hemit).1⟩

/-- A source whose document cannot be named by the path that is written for it,
which is no value to the command line, but by that path after a dot. -/
theorem run_saved_tree_dashed :
    let files (path : String) : Entry := if path = "-1" then .text "print nil;" else .missing
    let emitted := run ["--emit-ast", "-1"] files []
    emitted.status = .exit 0
      ∧ emitted.stdout = "-1.ast.json\n"
      ∧ (run ["--ast", "-1.ast.json"] (emitted.found files) []).status = .exit 2
      ∧ Argument.ofText "./-1.ast.json" = .value "./-1.ast.json"
      ∧ normalize "./-1.ast.json" = Options.treePath "-1"
      ∧ (run ["-1"] files []).status = .exit 0 := by
  refine ⟨by cbv, by cbv, by cbv, rfl, by decide, by cbv⟩

end Lox.CommandLine
