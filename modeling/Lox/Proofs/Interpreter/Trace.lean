import Lox.Proofs.Interpreter.Declared
import Lox.Proofs.Interpreter.Follows
/-!
# The shape of a trace

What the messages of a session look like from level one on. A call that meets
an empty error slot adds the messages of its work, among them one for each
statement that it starts to execute, and one more if it fills the slot; one
that meets a filled slot adds at most one message (`Adds`). So a trace can be
read without the interpreter: whether it stands halted, and by which error, is
seen from its last messages, and that decides which message may follow
(`Shaped`). Enclosing expressions handle an error again and again, but that
comes to one evaluation with one handler (`nested_eq_evaluate`).
-/

namespace Lox

open Document

/-! ## Messages and what they follow -/

namespace Message

/-- A message of work: a statement is executed, a name is defined, or an
operation is completed. -/
def IsWork : Message → Prop
  | executing _ | defined _ _ | operated _ => True
  | skipping _ | halted _ | cleared _ | remark _ => False

/-- The statement that a message says is executed. -/
def executed? : Message → Option String
  | executing stmt => some stmt
  | _ => none

end Message

/-- **A trace that stands halted** by an error: after that nothing but runs were
skipped. -/
def HaltedBy (trace : List Message) (e : RuntimeError) : Prop :=
  ∃ before skipped, trace = before ++ .halted e :: skipped ∧
    ∀ message ∈ skipped, ∃ stmt, message = .skipping stmt

/-- **What may follow a trace**: a run is skipped and an error is cleared
where the trace stands halted, by that error; anything else follows where it
does not. -/
def Message.MayFollow (trace : List Message) : Message → Prop
  | .cleared e => HaltedBy trace e
  | .skipping _ => ∃ e, HaltedBy trace e
  | _ => ∀ e, ¬ HaltedBy trace e

/-- **The shape of a trace**, with the error slot that goes with it. -/
structure Shaped (trace : List Message) (slot : Option RuntimeError) : Prop where
  slot : ∀ e, slot = some e ↔ HaltedBy trace e
  order : ∀ before message after, trace = before ++ message :: after → message.MayFollow before

variable {trace added : List Message} {slot : Option RuntimeError} {message : Message}
  {e : RuntimeError}

/-- The last message decides whether a trace stands halted. -/
theorem haltedBy_concat : HaltedBy (trace ++ [message]) e ↔
    message = .halted e ∨ (∃ stmt, message = .skipping stmt) ∧ HaltedBy trace e := by
  constructor
  · rintro ⟨before, skipped, heq, hskipped⟩
    rcases concat_eq_append_cons.1 heq with ⟨-, -, hlast⟩ | ⟨rest, rfl, rfl⟩
    · exact .inl hlast.symm
    · obtain ⟨hrest, hlast⟩ := List.forall_mem_append.1 hskipped
      exact .inr ⟨hlast message List.mem_cons_self, before, rest, rfl, hrest⟩
  · rintro (rfl | ⟨hskip, before, skipped, rfl, hskipped⟩)
    · exact ⟨trace, [], rfl, List.forall_mem_nil _⟩
    · refine ⟨before, skipped ++ [message], by simp, List.forall_mem_append.2 ⟨hskipped, ?_⟩⟩
      exact List.forall_mem_singleton.2 hskip

/-- An empty trace goes with an empty slot. -/
theorem shaped_nil : Shaped [] none where
  slot e := by
    constructor
    · intro h
      cases h
    · rintro ⟨before, skipped, heq, -⟩
      simp at heq
  order before message after heq := by simp at heq

namespace Shaped

/-- A trace goes on with what may follow it. -/
theorem concat (h : Shaped trace slot) (hfollows : message.MayFollow trace)
    {later : Option RuntimeError}
    (hlater : ∀ e, later = some e ↔
      message = .halted e ∨ (∃ stmt, message = .skipping stmt) ∧ slot = some e) :
    Shaped (trace ++ [message]) later where
  slot e := by rw [hlater, haltedBy_concat, h.slot]
  order before other after heq := by
    rcases concat_eq_append_cons.1 heq with ⟨-, rfl, rfl⟩ | ⟨rest, -, rfl⟩
    · exact hfollows
    · exact h.order before other rest rfl

/-- With an empty slot the trace does not stand halted. -/
theorem not_haltedBy (h : Shaped trace none) (e : RuntimeError) : ¬ HaltedBy trace e := by
  rw [← h.slot]
  simp

/-- Work goes on where the slot is empty. -/
theorem append_work (h : Shaped trace none) (hwork : ∀ message ∈ added, message.IsWork) :
    Shaped (trace ++ added) none := by
  induction added generalizing trace with
  | nil => simpa using h
  | cons message rest ih =>
    obtain ⟨hmessage, hrest⟩ := List.forall_mem_cons.1 hwork
    rw [← List.singleton_append, ← List.append_assoc]
    refine ih (h.concat ?_ ?_) hrest
    · cases message with
      | executing | defined | operated => exact h.not_haltedBy
      | skipping | halted | cleared | remark => exact hmessage.elim
    · cases message with
      | executing | defined | operated => simp
      | skipping | halted | cleared | remark => exact hmessage.elim

/-- An error halts where the slot is empty. -/
theorem halt (h : Shaped trace none) (e : RuntimeError) :
    Shaped (trace ++ [.halted e]) (some e) := by
  have hfollows : (Message.halted e).MayFollow trace := h.not_haltedBy
  exact h.concat hfollows (by simp)

/-- A run is skipped where it is filled. -/
theorem skip (h : Shaped trace (some e)) (stmt : String) :
    Shaped (trace ++ [.skipping stmt]) (some e) := by
  have hfollows : (Message.skipping stmt).MayFollow trace := ⟨e, (h.slot e).1 rfl⟩
  exact h.concat hfollows (by simp)

/-- The error that fills it is cleared. -/
theorem clear (h : Shaped trace (some e)) : Shaped (trace ++ [.cleared e]) none := by
  have hfollows : (Message.cleared e).MayFollow trace := (h.slot e).1 rfl
  exact h.concat hfollows (by simp)

end Shaped

/-! ## Calls -/

/-- A call of the interpreter's own: what it runs or executes can be printed,
and it neither adds a remark nor ends the trace. -/
def Call.Own : Call → Prop
  | run stmts => ∀ stmt ∈ stmts, ∃ text, stmt.renderStmt = .ok text
  | execute stmt => ∃ text, stmt.renderStmt = .ok text
  | evaluate _ | define _ _ | reset => True
  | remark _ | close => False

/-- Statements of a program can be printed. -/
theorem Call.own_run (ss : List Stmt) : (Call.run (ss.map Stmt.toNode)).Own :=
  List.forall_mem_map.2 fun s _ => ⟨s.render, renderStmt_toNode s⟩

namespace Interpreter

/-- **The statements that a run starts to execute**: one after another, up to
one that fails, and none on a halted interpreter. -/
def starts (m : Interpreter) : List Node → List Node
  | [] => []
  | stmt :: rest =>
    if m.halted then []
    else stmt :: match m.execute stmt with
      | (.ok _, later) => later.starts rest
      | (.error _, _) => []

/-- The statements that a call starts to execute. -/
def startedBy (m : Interpreter) : Call → List Node
  | .run stmts => m.starts stmts
  | .execute stmt => if m.halted then [] else [stmt]
  | _ => []

/-- **What a call adds to a trace**, and what it does to the error slot with
it. -/
inductive Adds (m next : Interpreter) (c : Call) : List Message → Prop
  /-- Work that leaves the slot empty. -/
  | work {added : List Message} : m.error = none → next.error = none →
      (∀ message ∈ added, message.IsWork) → Adds m next c added
  /-- Work that fails and so fills it. -/
  | halt {added : List Message} {e : RuntimeError} : m.error = none → next.error = some e →
      (∀ message ∈ added, message.IsWork) → Adds m next c (added ++ [.halted e])
  /-- A run that is skipped. -/
  | skip {e : RuntimeError} {stmt : Node} {rest : List Node} {text : String} :
      c = .run (stmt :: rest) → stmt.renderStmt = .ok text → m.error = some e →
      next.error = some e → Adds m next c [.skipping text]
  /-- A reset that clears an error. -/
  | clear {e : RuntimeError} : c = .reset → m.error = some e → next.error = none →
      Adds m next c [.cleared e]
  /-- Any other call that meets a filled slot. -/
  | idle {e : RuntimeError} : c ≠ .reset → (∀ stmt rest, c ≠ .run (stmt :: rest)) →
      m.error = some e → next.error = some e → Adds m next c []

namespace Adds

variable {m next : Interpreter} {c : Call}

/-- An error is noted as halting exactly where it fills the slot. -/
theorem halted_mem_iff (h : Adds m next c added) :
    .halted e ∈ added ↔ m.error = none ∧ next.error = some e := by
  have hnot {work : List Message} (hwork : ∀ message ∈ work, message.IsWork) :
      .halted e ∉ work := fun hmem => hwork _ hmem
  cases h with
  | work hm hnext hwork => simp [hnot hwork, hnext]
  | halt hm hnext hwork => simp [hnot hwork, hm, hnext, eq_comm]
  | skip _ _ hm | clear _ hm | idle _ _ hm => simp [hm]

/-- One is noted as cleared exactly where a reset empties the slot of it. -/
theorem cleared_mem_iff (h : Adds m next c added) :
    .cleared e ∈ added ↔ c = .reset ∧ m.error = some e := by
  have hnot {work : List Message} (hwork : ∀ message ∈ work, message.IsWork) :
      .cleared e ∉ work := fun hmem => hwork _ hmem
  cases h with
  | work hm hnext hwork => simp [hnot hwork, hm]
  | halt hm hnext hwork => simp [hnot hwork, hm]
  | skip hc => simp [hc]
  | clear hc hm => simp [hc, hm, eq_comm]
  | idle hc => simp [hc]

end Adds

/-- What is added keeps the trace in shape. -/
theorem Adds.shaped {m next : Interpreter} {c : Call} (h : Adds m next c added)
    (hm : Shaped trace m.error) : Shaped (trace ++ added) next.error := by
  cases h with
  | work hm' hnext hwork =>
    rw [hm'] at hm
    rw [hnext]
    exact hm.append_work hwork
  | halt hm' hnext hwork =>
    rw [hm'] at hm
    rw [hnext, ← List.append_assoc]
    exact (hm.append_work hwork).halt _
  | skip _ _ hm' hnext =>
    rw [hm'] at hm
    rw [hnext]
    exact hm.skip _
  | clear _ hm' hnext =>
    rw [hm'] at hm
    rw [hnext]
    exact hm.clear
  | idle _ _ hm' hnext =>
    rw [hm'] at hm
    rwa [hnext, List.append_nil]

/-! ## What is noted -/

/-- A state whose trace is that of an earlier one and some messages, kept
alike. -/
structure Noted (m next : Interpreter) (added : List Message) : Prop where
  trace : next.trace.toList = m.trace.toList ++ added
  tracing : next.tracing = m.tracing
  level : next.level = m.level

/-- A trace that is kept from level one on. -/
structure Keeps (m : Interpreter) : Prop where
  tracing : m.tracing = true
  level : 1 ≤ m.level

variable {m next last : Interpreter} {more : List Message}

/-- What leaves the trace alone notes nothing. -/
theorem noted_nil (htrace : next.trace = m.trace) (htracing : next.tracing = m.tracing)
    (hlevel : next.level = m.level) : Noted m next [] :=
  ⟨by rw [htrace, List.append_nil], htracing, hlevel⟩

/-- Messages after messages. -/
theorem Noted.trans (h : Noted m next added) (h' : Noted next last more) :
    Noted m last (added ++ more) :=
  ⟨by rw [h'.trace, h.trace, List.append_assoc], h'.tracing.trans h.tracing,
    h'.level.trans h.level⟩

/-- A trace is still kept after messages. -/
theorem Noted.keeps (h : Noted m next added) (hm : m.Keeps) : next.Keeps :=
  ⟨h.tracing.trans hm.tracing, h.level ▸ hm.level⟩

/-- A message is noted. -/
theorem noted_note (hm : m.Keeps) (message : Message) : Noted m (m.note message) [message] :=
  ⟨by rw [note_trace, if_pos hm.tracing], note_tracing m message, note_level m message⟩

/-- **The messages of work** between two states, the second of which may be
halted by an error of it: the given texts are those of the statements that
were started. -/
def Works (m next : Interpreter) (texts : List String) : Prop :=
  ∃ work, (∀ message ∈ work, message.IsWork) ∧ work.filterMap Message.executed? = texts ∧
    Noted m next (work ++ (next.error.map Message.halted).toList)

/-- Work without a message. -/
theorem works_nil (htrace : next.trace = m.trace) (htracing : next.tracing = m.tracing)
    (hlevel : next.level = m.level) (hnext : next.error = none) : Works m next [] :=
  ⟨[], List.forall_mem_nil _, rfl, by rw [hnext]; exact noted_nil htrace htracing hlevel⟩

/-- Work that is gone on with. -/
theorem Works.trans {texts texts' : List String} (h : Works m next texts)
    (hnext : next.error = none) (h' : Works next last texts') : Works m last (texts ++ texts') := by
  obtain ⟨work, hwork, rfl, hnoted⟩ := h
  obtain ⟨work', hwork', rfl, hnoted'⟩ := h'
  rw [hnext] at hnoted
  refine ⟨work ++ work', List.forall_mem_append.2 ⟨hwork, hwork'⟩, List.filterMap_append, ?_⟩
  rw [List.append_assoc]
  simpa using hnoted.trans hnoted'

/-- The trace is still kept after work. -/
theorem Works.keeps {texts : List String} (h : Works m next texts) (hm : m.Keeps) : next.Keeps := by
  obtain ⟨_, _, _, hnoted⟩ := h
  exact hnoted.keeps hm

/-- Work from an empty slot is what a call adds. -/
theorem Works.exists_adds {texts : List String} (h : Works m next texts) (hm : m.error = none)
    (c : Call) : ∃ added, Noted m next added ∧ Adds m next c added ∧
      added.filterMap Message.executed? = texts := by
  obtain ⟨work, hwork, rfl, hnoted⟩ := h
  refine ⟨_, hnoted, ?_, ?_⟩
  · rcases hnext : next.error with _ | e
    · simpa using Adds.work hm hnext hwork
    · exact .halt hm hnext hwork
  · cases next.error <;> simp [Message.executed?]

/-! ## Evaluating and executing -/

/-- Operations are noted one after another. -/
theorem noted_operations (hm : m.Keeps) (operations : List Operation) :
    Noted m (operations.foldl (fun m o => m.note (.operated o)) m)
      (operations.map Message.operated) := by
  induction operations generalizing m with
  | nil => exact noted_nil rfl rfl rfl
  | cons o rest ih =>
    have hfirst := noted_note hm (.operated o)
    exact hfirst.trans (ih (hfirst.keeps hm))

/-- That is work, if they are noted at all. -/
theorem works_noteOperations (hm : m.Keeps) (herror : m.error = none)
    (operations : List Operation) : Works m (m.noteOperations operations) [] := by
  have hopen := (m.noteOperations_error operations).trans herror
  by_cases hlevel : 3 ≤ m.level
  · refine ⟨operations.map .operated, ?_, ?_, ?_⟩
    · simp [Message.IsWork]
    · simp [List.filterMap_map, Function.comp_def, Message.executed?]
    · rw [hopen, noteOperations, if_pos hlevel]
      simpa using noted_operations hm operations
  · rw [noteOperations, if_neg hlevel]
    exact works_nil rfl rfl rfl herror

/-- An error is noted where it fills the slot. -/
theorem works_halt (hm : m.Keeps) (e : RuntimeError) : Works m (m.halt e) [] := by
  have hnoted := noted_note hm (.halted e)
  exact ⟨[], List.forall_mem_nil _, rfl, hnoted.trace, hnoted.tracing, hnoted.level⟩

/-- An expression is evaluated with work, and without starting a statement. -/
theorem works_evaluate (hm : m.Keeps) (herror : m.error = none) (expr : Node) :
    Works m (m.evaluate expr).2 [] := by
  have hoperations := works_noteOperations hm herror (Lox.evaluate m.scope expr).operations
  have hopen := (m.noteOperations_error (Lox.evaluate m.scope expr).operations).trans herror
  rw [evaluate_eq_settle herror, settle]
  split
  · exact hoperations.trans hopen (works_halt (hoperations.keeps hm) _)
  · exact hoperations

/-- So is a name defined. -/
theorem works_declare (hm : m.Keeps) (herror : m.error = none) (name : Json) (value : Value) :
    Works m (m.declare name value).2 [] := by
  have hmark : (m.mark value).2.trace = m.trace ∧ (m.mark value).2.tracing = m.tracing ∧
      (m.mark value).2.level = m.level := by
    unfold mark
    split <;> exact ⟨rfl, rfl, rfl⟩
  have hopen := (m.mark_error value).trans herror
  rw [declare]
  rcases hmarked : m.mark value with ⟨value', marked⟩
  rw [hmarked] at hmark hopen
  obtain ⟨htrace, htracing, hlevel⟩ := hmark
  split
  · exact works_nil rfl rfl rfl herror
  · next name' _ =>
    have hdefined : Works m (marked.define name' value') [] :=
      works_nil htrace htracing hlevel hopen
    have hopen' : (marked.define name' value').error = none := hopen
    dsimp only
    split
    · -- From level two on the definition is noted.
      have hnoted := noted_note (hdefined.keeps hm) (.defined name'.plain value')
      refine hdefined.trans hopen' ⟨[.defined name'.plain value'], ?_, rfl, ?_⟩
      · exact List.forall_mem_singleton.2 trivial
      · rw [note_error, hopen']
        exact hnoted
    · exact hdefined

/-- So is a statement carried out. -/
theorem works_perform (hm : m.Keeps) (herror : m.error = none) (stmt : Node) :
    Works m (m.perform stmt).2 [] := by
  unfold perform
  split
  · next expr => exact works_evaluate hm herror expr
  · next expr =>
    have hworks := works_evaluate hm herror expr
    have hraises := raises_evaluate herror expr
    rcases heval : m.evaluate expr with ⟨failure | value, later⟩ <;> rw [heval] at hworks hraises
    · exact hworks
    · exact hworks.trans hraises.error_eq_none (works_nil rfl rfl rfl hraises.error_eq_none)
  · next name initializer =>
    have hworks := works_evaluate hm herror initializer
    have hraises := raises_evaluate herror initializer
    rcases heval : m.evaluate initializer with ⟨failure | value, later⟩ <;>
      rw [heval] at hworks hraises
    · exact hworks
    · exact hworks.trans hraises.error_eq_none
        (works_declare (hworks.keeps hm) hraises.error_eq_none name value)
  · exact works_nil rfl rfl rfl herror

/-- A statement that can be printed is noted. -/
theorem noteStmt_of_keeps (hm : m.Keeps) (message : String → Message) {stmt : Node} {text : String}
    (htext : stmt.renderStmt = .ok text) :
    m.noteStmt message stmt = (.ok (), m.note (message text)) := by
  rw [noteStmt, if_pos hm.level, htext]

/-- **A statement that is executed** is noted first, and nothing after it starts
another one. -/
theorem works_execute (hm : m.Keeps) (herror : m.error = none) {stmt : Node} {text : String}
    (htext : stmt.renderStmt = .ok text) : Works m (m.execute stmt).2 [text] := by
  have hnoted := noted_note hm (.executing text)
  have hopen : (m.note (.executing text)).error = none := (note_error m _).trans herror
  have hstart : Works m (m.note (.executing text)) [text] :=
    ⟨[.executing text], by simp [Message.IsWork], rfl, by rw [hopen]; exact hnoted⟩
  rw [execute, halted_eq_false m herror, if_neg Bool.false_ne_true, noteStmt_of_keeps hm _ htext]
  exact hstart.trans hopen (works_perform (hnoted.keeps hm) hopen stmt)

/-- **A run notes every statement that it starts**, in order. -/
theorem works_runFrom (hm : m.Keeps) (herror : m.error = none) (value : Option Value)
    {stmts : List Node} (hstmts : ∀ stmt ∈ stmts, ∃ text, stmt.renderStmt = .ok text) :
    ∃ texts, Works m (m.runFrom value stmts).2 texts ∧
      List.Forall₂ (fun stmt text => stmt.renderStmt = .ok text) (m.starts stmts) texts := by
  induction stmts generalizing m value with
  | nil => exact ⟨[], works_nil rfl rfl rfl herror, .nil⟩
  | cons stmt rest ih =>
    obtain ⟨⟨text, htext⟩, hrest⟩ := List.forall_mem_cons.1 hstmts
    have hworks := works_execute hm herror htext
    have hraises := raises_execute herror stmt
    rw [runFrom, starts, halted_eq_false m herror, if_neg Bool.false_ne_true,
      if_neg Bool.false_ne_true]
    rcases hexec : m.execute stmt with ⟨failure | own, later⟩ <;> rw [hexec] at hworks hraises
    · exact ⟨[text], hworks, .cons htext .nil⟩
    · have hlater := hraises.error_eq_none
      obtain ⟨texts, hmore, hstarts⟩ := ih (hworks.keeps hm) hlater
        (if hasValue stmt then own else value) hrest
      exact ⟨text :: texts, hworks.trans hlater hmore, .cons htext hstarts⟩

/-! ## The law of a call -/

/-- **What a call adds from an empty slot** is its work. -/
theorem exists_works_call (hm : m.Keeps) (herror : m.error = none) {c : Call} (hc : c.Own) :
    ∃ texts, Works m (m.call c).2 texts ∧
      List.Forall₂ (fun stmt text => stmt.renderStmt = .ok text) (m.startedBy c) texts := by
  cases c with
  | run stmts => exact works_runFrom hm herror none hc
  | execute stmt =>
    obtain ⟨text, htext⟩ := hc
    refine ⟨[text], works_execute hm herror htext, ?_⟩
    rw [startedBy, halted_eq_false m herror]
    exact .cons htext .nil
  | evaluate expr => exact ⟨[], works_evaluate hm herror expr, .nil⟩
  | define name value => exact ⟨[], works_nil rfl rfl rfl herror, .nil⟩
  | reset =>
    have hreset : (m.call .reset).2 = m := by
      rw [call, reset, herror]
    rw [hreset]
    exact ⟨[], works_nil rfl rfl rfl herror, .nil⟩
  | remark | close => exact hc.elim

/-- **A call that meets a filled slot** adds one message at most, and starts
nothing. -/
theorem adds_of_halted (hm : m.Keeps) (herror : m.error = some e) {c : Call} (hc : c.Own) :
    ∃ added, Noted m (m.call c).2 added ∧ Adds m (m.call c).2 c added ∧
      added.filterMap Message.executed? = [] ∧ m.startedBy c = [] := by
  have hhalted : m.halted = true := m.halted_iff.2 ⟨e, herror⟩
  have hidle (hc : c ≠ .reset) (hrun : ∀ stmt rest, c ≠ .run (stmt :: rest))
      (hstarted : m.startedBy c = []) (hcall : (m.call c).2.error = m.error)
      (hnoted : Noted m (m.call c).2 []) :
      ∃ added, Noted m (m.call c).2 added ∧ Adds m (m.call c).2 c added ∧
        added.filterMap Message.executed? = [] ∧ m.startedBy c = [] :=
    ⟨[], hnoted, .idle hc hrun herror (hcall.trans herror), rfl, hstarted⟩
  cases c with
  | run stmts =>
    rcases stmts with _ | ⟨stmt, rest⟩
    · exact hidle (by simp) (by simp) rfl rfl (noted_nil rfl rfl rfl)
    · obtain ⟨⟨text, htext⟩, -⟩ := List.forall_mem_cons.1 hc
      have hcall : (m.call (.run (stmt :: rest))).2 = m.note (.skipping text) := by
        rw [call, run, runFrom, if_pos hhalted, noteStmt_of_keeps hm _ htext]
      rw [hcall]
      exact ⟨[.skipping text], noted_note hm _,
        .skip rfl htext herror ((note_error m _).trans herror), rfl, if_pos hhalted⟩
  | execute stmt =>
    have hcall : (m.call (.execute stmt)).2 = m := by rw [call, execute, if_pos hhalted]
    rw [hcall] at hidle ⊢
    exact hidle (by simp) (by simp) (if_pos hhalted) rfl (noted_nil rfl rfl rfl)
  | evaluate expr =>
    have hcall : (m.call (.evaluate expr)).2 = m := by rw [call, evaluate, if_pos hhalted]
    rw [hcall] at hidle ⊢
    exact hidle (by simp) (by simp) rfl rfl (noted_nil rfl rfl rfl)
  | define name value => exact hidle (by simp) (by simp) rfl rfl (noted_nil rfl rfl rfl)
  | reset =>
    have hreset : (m.call .reset).2 = { m.note (.cleared e) with error := none } := by
      rw [call, reset, herror]
    have hnoted := noted_note hm (.cleared e)
    rw [hreset]
    exact ⟨[.cleared e], ⟨hnoted.trace, hnoted.tracing, hnoted.level⟩, .clear rfl herror rfl, rfl,
      rfl⟩
  | remark | close => exact hc.elim

/-- **The law of a call**: what it adds to the trace, and that it notes each
statement that it starts. -/
theorem adds_call (hm : m.Keeps) {c : Call} (hc : c.Own) :
    ∃ added, Noted m (m.call c).2 added ∧ Adds m (m.call c).2 c added ∧
      List.Forall₂ (fun stmt text => stmt.renderStmt = .ok text) (m.startedBy c)
        (added.filterMap Message.executed?) := by
  rcases herror : m.error with _ | e
  · obtain ⟨texts, hworks, hstarted⟩ := exists_works_call hm herror hc
    obtain ⟨added, hnoted, hadds, rfl⟩ := hworks.exists_adds herror c
    exact ⟨added, hnoted, hadds, hstarted⟩
  · obtain ⟨added, hnoted, hadds, hnone, hstarted⟩ := adds_of_halted hm herror hc
    exact ⟨added, hnoted, hadds, by rw [hstarted, hnone]; exact .nil⟩

/-- A session keeps the trace in shape. -/
theorem shaped_after (hm : m.Keeps) (hshaped : Shaped m.trace.toList m.error) {calls : List Call}
    (hcalls : ∀ c ∈ calls, c.Own) :
    (m.after calls).Keeps ∧ Shaped (m.after calls).trace.toList (m.after calls).error := by
  induction calls generalizing m with
  | nil => exact ⟨hm, hshaped⟩
  | cons c rest ih =>
    obtain ⟨hc, hrest⟩ := List.forall_mem_cons.1 hcalls
    obtain ⟨added, hnoted, hadds, -⟩ := adds_call hm hc
    refine ih (hnoted.keeps hm) ?_ hrest
    rw [hnoted.trace]
    exact hadds.shaped hshaped

end Interpreter

end Lox
