import Lox.Frontend
import Lox.Proofs.Program.Operators
/-!
# Reports of one line

Whatever a text holds, it is quoted with printable characters only
(`Text.isLine_quoted`), and a line feed is none of them. So every report of a
fault is one line of output, whichever characters and lexemes it quotes
(`Frontend.isLine_of_read_error`, `Frontend.isLine_of_mem_notices`), and as many
line feeds are written as there are reports (`count_newline_linesText`). Lines
without line feeds are determined by the text that is made of them
(`linesText_inj`).
-/

namespace Lox

namespace Text

/-- **A text that is one line**: all of its characters are printable. -/
def IsLine (text : String) : Prop :=
  ∀ c ∈ text.toList, Unicode.isPrintable c = true

/-- The signs, letters and digits of ASCII are printable. -/
theorem isPrintable_of_ascii {c : Char} (hlow : 0x20 ≤ c.toNat) (hhigh : c.toNat < 0x7F) :
    Unicode.isPrintable c = true := by
  have htable : Unicode.unprintables
      = (0x00, 0x1F) :: (0x7F, 0xA0) :: Unicode.unprintables.drop 2 := rfl
  rw [Unicode.isPrintable, htable]
  simp only [Unicode.Ranges.contains]
  split_ifs <;> first | rfl | omega

/-- So is a text of nothing else. -/
theorem isLine_of_ascii {text : String}
    (h : ∀ c ∈ text.toList, 0x20 ≤ c.toNat ∧ c.toNat < 0x7F) : IsLine text :=
  fun c hc => isPrintable_of_ascii (h c hc).1 (h c hc).2

/-- One text after another. -/
theorem IsLine.append {text text' : String} (h : IsLine text) (h' : IsLine text') :
    IsLine (text ++ text') := by
  rw [IsLine, String.toList_append]
  exact List.forall_mem_append.2 ⟨h, h'⟩

/-- **There is no line feed in a line.** -/
theorem IsLine.newline_notMem {text : String} (h : IsLine text) : '\n' ∉ text.toList :=
  fun hmem => absurd (h _ hmem) (by decide)

/-! ## Quoted text and numbers -/

/-- A hexadecimal digit is printable. -/
theorem isPrintable_of_mem_toDigits {c : Char} (n : Nat) (h : c ∈ Nat.toDigits 16 n) :
    Unicode.isPrintable c = true := by
  have hdigit : ∀ d < 16, 0x20 ≤ (Nat.digitChar d).toNat ∧ (Nat.digitChar d).toNat < 0x7F := by
    decide
  induction n using Nat.strong_induction_on with
  | _ n ih =>
    rcases Nat.lt_or_ge n 16 with hlt | hge
    · rw [Nat.toDigits_of_lt_base hlt, List.mem_singleton] at h
      obtain ⟨hlow, hhigh⟩ := hdigit n hlt
      exact h ▸ isPrintable_of_ascii hlow hhigh
    · rw [Nat.toDigits_of_base_le (by omega) hge, List.mem_append, List.mem_singleton] at h
      rcases h with h | rfl
      · exact ih (n / 16) (by omega) h
      · obtain ⟨hlow, hhigh⟩ := hdigit (n % 16) (by omega)
        exact isPrintable_of_ascii hlow hhigh

/-- So are the digits of a character that does not show as itself. -/
theorem isPrintable_of_mem_hex {c : Char} {width n : Nat} (h : c ∈ hex width n) :
    Unicode.isPrintable c = true := by
  rcases List.mem_append.1 h with h | h
  · rw [List.eq_of_mem_replicate h]
    exact isPrintable_of_ascii (by decide) (by decide)
  · exact isPrintable_of_mem_toDigits n h

/-- Whatever a character is, it is written with printable characters between
printable marks. -/
theorem isPrintable_of_mem_escapeBetween {mark c d : Char} (hmark : Unicode.isPrintable mark = true)
    (h : d ∈ escapeBetween mark c) : Unicode.isPrintable d = true := by
  have hslash : Unicode.isPrintable '\\' = true := isPrintable_of_ascii (by decide) (by decide)
  have hascii : ∀ e ∈ ['n', 'r', 't', 'x', 'u', 'U'], 0x20 ≤ e.toNat ∧ e.toNat < 0x7F := by simp
  have hletter : ∀ e ∈ ['n', 'r', 't', 'x', 'u', 'U'], Unicode.isPrintable e = true :=
    fun e he => isPrintable_of_ascii (hascii e he).1 (hascii e he).2
  simp only [List.forall_mem_cons] at hletter
  obtain ⟨hn, hr, ht, hx, hu, hU, -⟩ := hletter
  simp only [escapeBetween, escapeUnprintable] at h
  split_ifs at h with hself _ _ _ hprintable <;>
    simp only [List.mem_cons, List.not_mem_nil, or_false] at h
  · rcases h with rfl | rfl
    · exact hslash
    · rcases hself with rfl | rfl <;> assumption
  · rcases h with rfl | rfl <;> assumption
  · rcases h with rfl | rfl <;> assumption
  · rcases h with rfl | rfl <;> assumption
  · exact h ▸ hprintable
  all_goals
    rcases h with rfl | rfl | h
    · exact hslash
    · assumption
    · exact isPrintable_of_mem_hex h

/-- **A quoted text is one line.** -/
theorem isLine_quoted (text : String) : IsLine (quoted text) := by
  have hmark (text : List Char) : Unicode.isPrintable (markFor text) = true := by
    rw [markFor]
    split <;> exact isPrintable_of_ascii (by decide) (by decide)
  rw [IsLine, quoted, String.toList_ofList, quote]
  simp only [List.cons_append, List.forall_mem_cons, List.forall_mem_append, List.mem_flatMap]
  refine ⟨hmark _, ?_, hmark _, List.forall_mem_nil _⟩
  rintro d ⟨c, -, hd⟩
  exact isPrintable_of_mem_escapeBetween (hmark _) hd

/-- So is a quotation in a sentence. -/
theorem isLine_quotation {start : String}
    (hstart : ∀ c ∈ start.toList, 0x20 ≤ c.toNat ∧ c.toNat < 0x7F) (text : String) :
    IsLine (start ++ quoted text ++ ".") :=
  ((isLine_of_ascii hstart).append (isLine_quoted text)).append (isLine_of_ascii (by simp))

/-- So is a whole number. -/
theorem isLine_intDigits (n : Int) : IsLine (String.ofList (Json.intDigits n)) := by
  have hdigits : ∀ c ∈ Nat.toDigits 10 n.natAbs, Unicode.isPrintable c = true := by
    intro c hc
    have hdigit := Nat.isDigit_of_mem_toDigits (by omega) (by omega) hc
    simp only [Char.isDigit, Bool.and_eq_true, decide_eq_true_eq] at hdigit
    refine isPrintable_of_ascii ?_ ?_
    · exact le_trans (by decide) (UInt32.le_iff_toNat_le.1 hdigit.1)
    · exact lt_of_le_of_lt (UInt32.le_iff_toNat_le.1 hdigit.2) (by decide)
  rw [IsLine, String.toList_ofList, Json.intDigits]
  split
  · exact List.forall_mem_cons.2 ⟨isPrintable_of_ascii (by decide) (by decide), hdigits⟩
  · exact hdigits

end Text

open Text

/-! ## Reports -/

/-- A diagnostic is reported in one line if its name and message are. -/
theorem Diagnostic.isLine_text {d : Diagnostic} (hname : IsLine d.name)
    (hmessage : IsLine d.message) : IsLine d.text := by
  have hreport : IsLine (d.name ++ ": " ++ d.message) :=
    (hname.append (isLine_of_ascii (by simp))).append hmessage
  rw [Diagnostic.text]
  split
  · exact hreport
  · next line _ =>
    have hline := isLine_intDigits line
    exact (((isLine_of_ascii (by simp)).append hline).append (isLine_of_ascii (by simp))).append
      hreport

/-- A fault of a source is reported in one line. -/
theorem Source.Fault.isLine_diagnostic (f : Source.Fault) : IsLine f.diagnostic.text := by
  cases f with
  | stray c line =>
    exact Diagnostic.isLine_text (isLine_of_ascii (by simp [diagnostic]))
      (isLine_quotation (by simp) _)
  | unterminated line =>
    exact Diagnostic.isLine_text (isLine_of_ascii (by simp [diagnostic]))
      (isLine_of_ascii (by simp [diagnostic]))

/-- So is a notice of it. -/
theorem Source.Fault.isLine_notice {f : Source.Fault} {text : String}
    (h : f.notice? = some text) : IsLine text := by
  cases f with
  | stray c line =>
    obtain rfl := Option.some.inj h
    exact (((isLine_of_ascii (by simp)).append (isLine_intDigits line)).append
      (isLine_of_ascii (by simp))).append (isLine_quoted _)
  | unterminated line => cases h

/-- So is a refusal by the grammar. -/
theorem Grammar.Refusal.isLine_diagnostic (r : Grammar.Refusal) : IsLine r.diagnostic.text := by
  cases r with
  | unexpectedCharacter c line =>
    exact Diagnostic.isLine_text (isLine_of_ascii (by simp [diagnostic]))
      (isLine_quotation (by simp) _)
  | unexpectedToken text line =>
    exact Diagnostic.isLine_text (isLine_of_ascii (by simp [diagnostic]))
      (isLine_quotation (by simp) _)
  | unexpectedEnd line =>
    exact Diagnostic.isLine_text (isLine_of_ascii (by simp [diagnostic]))
      (isLine_of_ascii (by simp [diagnostic]))

/-- So is a fault of a list of tokens, which quotes the lexeme found. -/
theorem Program.Miss.isLine_diagnostic (endLine : Int) (m : Program.Miss Token) :
    IsLine (m.fault endLine).diagnostic.text := by
  have hmessage (e : Program.Expectation) : IsLine e.message := by
    cases e <;> exact isLine_of_ascii (by simp [Program.Expectation.message])
  have hfound : ∀ shown ∈ (m.fault endLine).found, IsLine shown := by
    unfold Miss.fault
    split
    · simp
    · next t rest _ =>
      dsimp only
      split
      · simp
      · rintro _ ⟨⟩
        exact isLine_quoted t.lexeme
  refine Diagnostic.isLine_text (isLine_of_ascii (by simp [Program.Fault.diagnostic])) ?_
  refine ((((hmessage _).append (isLine_of_ascii (by simp))).append ?_)).append
    (isLine_of_ascii (by simp))
  split
  · exact isLine_of_ascii (by simp)
  · next shown hshown => exact (isLine_of_ascii (by simp)).append (hfound shown hshown)

/-- The faults of a list of tokens are its misses, of which there are some. -/
theorem Program.exists_misses_of_parse_error {single : Bool} {ts : List Token}
    {faults : List Program.Fault} (h : parse single ts = .error faults) :
    ∃ misses : List (Miss Token), misses ≠ [] ∧ faults = misses.map (Miss.fault (endLine ts)) := by
  have hread : readAll single ts = .error faults := eq_error_of_map h
  unfold readAll at hread
  dsimp only at hread
  split at hread
  · cases hread
  · next hmisses => exact ⟨_, hmisses, (Except.error.inj hread).symm⟩

namespace Frontend

/-- The errors of a source that is not accepted are those of its scan, those of
its tokens, or one of the grammar. -/
theorem read_error_cases {f : Frontend} {source : String} {rejection : Rejection}
    (h : f.read source = .error rejection) :
    (∃ refusal, rejection = .grammar refusal) ∨
      (∃ faults, faults ≠ [] ∧ rejection = .source faults) ∨
      ∃ (misses : List (Program.Miss Token)) (last : Int), misses ≠ [] ∧
        rejection = .program (misses.map (Program.Miss.fault last)) := by
  unfold read at h
  split at h
  · rcases hgrammar : Grammar.parse source with r | ss <;> rw [hgrammar] at h <;> cases h
    exact .inl ⟨r, rfl⟩
  rcases hscan : (Source.scan source).result f.lenient with faults | ts <;>
    rw [tokens, hscan] at h
  · cases h
    refine .inr (.inl ⟨faults, ?_, rfl⟩)
    rintro rfl
    unfold Source.Scan.result at hscan
    split at hscan
    · cases hscan
    · next hne => exact hne (Except.error.inj hscan)
  · change (Program.parse f.single ts).mapError Rejection.program = _ at h
    rcases hparse : Program.parse f.single ts with r | ss <;> rw [hparse] at h <;> cases h
    obtain ⟨misses, hne, rfl⟩ := Program.exists_misses_of_parse_error hparse
    exact .inr (.inr ⟨misses, _, hne, rfl⟩)

/-- **Every error of a source that is not accepted is one line.** -/
theorem isLine_of_read_error {f : Frontend} {source : String} {rejection : Rejection}
    (h : f.read source = .error rejection) : ∀ d ∈ rejection.diagnostics, IsLine d.text := by
  rcases read_error_cases h with ⟨refusal, rfl⟩ | ⟨faults, -, rfl⟩ | ⟨misses, last, -, rfl⟩
  · simp only [Rejection.diagnostics, List.forall_mem_singleton]
    exact refusal.isLine_diagnostic
  · simp only [Rejection.diagnostics, List.forall_mem_map]
    exact fun fault _ => fault.isLine_diagnostic
  · simp only [Rejection.diagnostics, List.map_map, List.forall_mem_map]
    exact fun m _ => m.isLine_diagnostic _

/-- There is such an error. -/
theorem diagnostics_ne_nil {f : Frontend} {source : String} {rejection : Rejection}
    (h : f.read source = .error rejection) : rejection.diagnostics ≠ [] := by
  rcases read_error_cases h with ⟨refusal, rfl⟩ | ⟨faults, hne, rfl⟩ | ⟨misses, last, hne, rfl⟩
  · exact List.cons_ne_nil _ _
  · simpa [Rejection.diagnostics] using hne
  · simpa [Rejection.diagnostics] using hne

/-- So is every notice. -/
theorem isLine_of_mem_notices {f : Frontend} {source text : String}
    (h : text ∈ f.notices source) : IsLine text := by
  unfold notices Source.Scan.notices at h
  split at h
  · cases h
  · split at h
    · obtain ⟨fault, -, hnotice⟩ := List.mem_filterMap.1 h
      exact fault.isLine_notice hnotice
    · cases h

/-- So is all that is written of a source that is not accepted. -/
theorem isLine_of_mem_reports {f : Frontend} {source : String} {rejection : Rejection}
    (h : f.read source = .error rejection) :
    ∀ report ∈ f.notices source ++ rejection.diagnostics.map Diagnostic.text, IsLine report :=
  List.forall_mem_append.2
    ⟨fun _ => isLine_of_mem_notices, List.forall_mem_map.2 (isLine_of_read_error h)⟩

end Frontend

/-! ## Lines of output -/

/-- Lines after others. -/
theorem linesText_append (lines lines' : List String) :
    linesText (lines ++ lines') = linesText lines ++ linesText lines' := by
  simp [linesText, String.join_append]

/-- As many line feeds are written as there are lines. -/
theorem count_newline_linesText {lines : List String} (h : ∀ line ∈ lines, '\n' ∉ line.toList) :
    (linesText lines).toList.count '\n' = lines.length := by
  induction lines with
  | nil => rfl
  | cons line lines ih =>
    obtain ⟨hline, hlines⟩ := List.forall_mem_cons.1 h
    rw [linesText, List.map_cons, String.join_cons, ← linesText]
    simp [ih hlines, List.count_eq_zero.2 hline]

/-- So a source that is not accepted is reported in as many lines as it has notices
and errors. -/
theorem Frontend.count_newline_reports {f : Frontend} {source : String} {rejection : Rejection}
    (h : f.read source = .error rejection) :
    (linesText (f.notices source ++ rejection.diagnostics.map Diagnostic.text)).toList.count '\n'
      = (f.notices source).length + rejection.diagnostics.length := by
  have hlines := isLine_of_mem_reports h
  rw [count_newline_linesText fun line hline => (hlines line hline).newline_notMem,
    List.length_append, List.length_map]

/-- What stands before a character for the first time is determined, and so is
what stands after it. -/
theorem append_cons_inj {c : Char} {first first' rest rest' : List Char} (h : c ∉ first)
    (h' : c ∉ first') (heq : first ++ c :: rest = first' ++ c :: rest') :
    first = first' ∧ rest = rest' := by
  have hspan {first : List Char} (h : c ∉ first) (rest : List Char) :
      (first ++ c :: rest).span (· != c) = (first, c :: rest) := by
    have hother := Source.Piece.bne_of_not_mem h
    rw [List.span_eq_takeWhile_dropWhile, List.takeWhile_append_of_pos hother,
      List.dropWhile_append_of_pos hother]
    simp
  have hparts := hspan h rest
  rw [heq, hspan h' rest'] at hparts
  obtain ⟨rfl, hrest⟩ := Prod.mk.inj hparts
  exact ⟨rfl, (List.cons.inj hrest).2.symm⟩

/-- **Lines are determined by their text.** -/
theorem linesText_inj {lines lines' : List String} (h : ∀ line ∈ lines, '\n' ∉ line.toList)
    (h' : ∀ line ∈ lines', '\n' ∉ line.toList) :
    linesText lines = linesText lines' ↔ lines = lines' := by
  have htext (line : String) (lines : List String) :
      (linesText (line :: lines)).toList = line.toList ++ '\n' :: (linesText lines).toList := by
    simp [linesText]
  refine ⟨fun heq => ?_, fun heq => heq ▸ rfl⟩
  induction lines generalizing lines' with
  | nil =>
    have hcount := count_newline_linesText h'
    rw [← heq] at hcount
    exact (List.length_eq_zero_iff.1 hcount.symm).symm
  | cons line lines ih =>
    obtain ⟨hline, hlines⟩ := List.forall_mem_cons.1 h
    rcases lines' with _ | ⟨line', lines'⟩
    · have hcount := count_newline_linesText h
      rw [heq] at hcount
      cases hcount
    · obtain ⟨hline', hlines'⟩ := List.forall_mem_cons.1 h'
      have htexts := congrArg String.toList heq
      rw [htext, htext] at htexts
      obtain ⟨hfirst, hrest⟩ := append_cons_inj hline hline' htexts
      rw [String.toList_inj.1 hfirst, ih hlines hlines' (String.toList_inj.1 hrest)]

end Lox
