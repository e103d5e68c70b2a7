import Lox.Proofs.Grammar.Agreement
/-!
# Names that the scanner does not know

The grammar lets a name start with any word character but a decimal digit
and the underscore, and so with a numeral that is no letter. That is the
only way to a program from a source that the strict scan refuses: where the
grammar reads a program, all that the scanner finds fault with are word
characters, and the first of them is such a numeral (`spoken_of_run`).
-/

namespace Lox.Source

/-- A fault that is a word character out of place. -/
def Fault.IsWordChar (f : Fault) : Prop :=
  ∃ c line, f = .stray c line ∧ Unicode.isWordChar c = true

/-- Faults with which a source may still be a program to the grammar: word
characters out of place, and the first of them a numeral that is no letter
and no decimal digit. -/
def Spoken (faults : List Fault) : Prop :=
  (∀ f ∈ faults, f.IsWordChar) ∧
    ∀ f ∈ faults.head?, ∃ c line, f = .stray c line ∧ Unicode.isOtherNumeral c = true

/-- A word stays on its line. -/
theorem count_word {w : List Char} (hw : ∀ c ∈ w, Unicode.isWordChar c = true) :
    w.count '\n' = 0 := by
  refine List.count_eq_zero.2 fun hmem => ?_
  exact absurd (hw _ hmem) (by decide)

/-- Without a point there is no fraction. -/
theorem splitFraction_of_head {rest : List Char} (h : ∀ c ∈ rest.head?, c ≠ '.') :
    Piece.splitFraction rest = ([], rest) := by
  unfold Piece.splitFraction
  split
  · exact absurd rfl (h _ rfl)
  · rfl

/-- **At a word character** a token of word characters is read, or that
character is out of place, unless a point follows the word that could give
a number its fraction. -/
theorem read_word_append {c : Char} {w after : List Char}
    (hw : ∀ d ∈ c :: w, Unicode.isWordChar d = true)
    (hafter : ∀ d ∈ after.head?, Unicode.isWordChar d = false ∧ d ≠ '.') :
    ∃ p w', Piece.read c (w ++ after) = (p, w' ++ after) ∧ p.text ++ w' = c :: w ∧
      ((∃ kind text, p = .token kind text) ∨ p = .stray c) := by
  obtain ⟨hc, htail⟩ := List.forall_mem_cons.1 hw
  rw [Piece.read_of_class (p := Unicode.isWordChar) (by decide) hc]
  split
  · -- No digit and no point stands after the word, so the number ends in it.
    have hdigit : ∀ d ∈ after.head?, d.isDigit = false := by
      intro d hd
      by_contra h
      have hword := isWordChar_of_isDigit (by simpa using h)
      rw [(hafter d hd).1] at hword
      exact absurd hword (by decide)
    have hleft : ∀ d ∈ (w.dropWhile Char.isDigit ++ after).head?, d ≠ '.' := by
      rcases hw' : w.dropWhile Char.isDigit with _ | ⟨e, w'⟩
      · exact fun d hd => (hafter d hd).2
      · have he : e ∈ w := (List.dropWhile_sublist Char.isDigit).mem (hw' ▸ List.mem_cons_self)
        rintro d hd rfl
        obtain rfl : e = '.' := Option.some.inj hd
        exact absurd (htail _ he) (by decide)
    obtain ⟨htake, hdrop⟩ := takeWhile_append_of_head hdigit w
    rw [Piece.readNumber, htake, hdrop, splitFraction_of_head hleft]
    exact ⟨_, _, rfl, by simp [Piece.text], .inl ⟨_, _, rfl⟩⟩
  · split
    · obtain ⟨htake, hdrop⟩ := takeWhile_append_of_head (fun d hd => (hafter d hd).1) w
      rw [Piece.readWord, htake, hdrop]
      exact ⟨_, _, rfl, by simp [Piece.text], .inl ⟨_, _, rfl⟩⟩
    · exact ⟨_, w, rfl, rfl, .inr rfl⟩

/-- **Word characters are cut to tokens and word characters out of place**,
whatever they start with. -/
theorem faultsFrom_word_append (line : Int) {after : List Char}
    (hafter : ∀ c ∈ after.head?, Unicode.isWordChar c = false ∧ c ≠ '.') :
    ∀ w : List Char, (∀ c ∈ w, Unicode.isWordChar c = true) →
      ∃ strays, (∀ f ∈ strays, f.IsWordChar) ∧
        faultsFrom line (cut (w ++ after)) = strays ++ faultsFrom line (cut after)
  | [], _ => ⟨[], by simp, rfl⟩
  | c :: w, hw => by
    obtain ⟨p, w', hread, happ, hp⟩ := read_word_append hw hafter
    have hall : ∀ d ∈ p.text ++ w', Unicode.isWordChar d = true := by rwa [happ]
    obtain ⟨htext, hw'⟩ := List.forall_mem_append.1 hall
    have hline : p.endLine line = line := by simp [Piece.endLine, count_word htext]
    have hshort : w'.length ≤ w.length := by
      have hne := Piece.text_read_ne_nil c (w ++ after)
      rw [hread] at hne
      have hpos : 0 < p.text.length := List.length_pos_iff.2 hne
      have hlength := congrArg List.length happ
      simp only [List.length_append, List.length_cons] at hlength
      omega
    obtain ⟨strays, hstrays, heq⟩ := faultsFrom_word_append line hafter w' hw'
    rw [List.cons_append, cut, hread]
    rcases hp with ⟨kind, text, rfl⟩ | rfl
    · exact ⟨strays, hstrays, by simpa [faultsFrom, hline] using heq⟩
    · have hc : (Fault.stray c line).IsWordChar := ⟨c, line, rfl, hw c List.mem_cons_self⟩
      exact ⟨_ :: strays, List.forall_mem_cons.2 ⟨hc, hstrays⟩,
        by simpa [faultsFrom, hline] using heq⟩
termination_by w => w.length

end Lox.Source

namespace Lox.Grammar

open Source

/-- A fixed text that a terminal stands for is a lexeme. -/
theorem lexeme_of_mem_words {t : Terminal} {word : String} (h : word ∈ t.words) :
    ∃ kind, Lexeme word.toList kind .null := by
  have hmem : ∀ word ∈ t.words, (∃ kind, (word, kind) ∈ Kind.signs) ∨
      ∃ kind, (word, kind) ∈ Kind.keywords := by
    cases t <;> simp [Terminal.words, Kind.signs, Kind.keywords]
  rcases hmem word h with ⟨kind, hsign⟩ | ⟨kind, hword⟩
  · exact ⟨kind, .sign (by simpa using hsign)⟩
  · exact ⟨kind, .keyword (by simpa using hword)⟩

/-- Where a character stands that begins nothing, a terminal starts only if
it is a name that starts with a numeral. -/
theorem eq_identifier_of_beginsNothing {c : Char} (hc : BeginsNothing c) {t : Terminal}
    {rest : List Char} (ht : t.matchLength (c :: rest) ≠ 0) :
    t = .identifier ∧ startsName c = true ∧ Unicode.isOtherNumeral c = true := by
  obtain ⟨-, hnone⟩ := hc
  have hdigit : c.isDigit = false := by
    by_contra h
    have hnumeral : IsNumeral [c] := .inl ⟨by simp, by simpa using h⟩
    exact hnone _ _ _ (.number hnumeral (Decimal.readFloat?_of_isNumeral hnumeral)) rfl
  cases t with
  | identifier =>
    have hletter : Unicode.isLetter c = false := by
      by_contra h
      obtain ⟨kind, value, hlex⟩ : ∃ kind value, Lexeme [c] kind value :=
        ⟨_, _, Piece.lexeme_word (by simpa using h) (by simp)⟩
      exact hnone _ _ _ hlex rfl
    have hstart : startsName c = true := by
      by_contra h
      exact ht (by simp [Terminal.matchLength, matchName, h])
    refine ⟨rfl, hstart, ?_⟩
    simp only [startsName, Unicode.isWordChar, Unicode.isAlphanumeric, hletter] at hstart
    grind
  | number => exact absurd (by simp [Terminal.matchLength, matchNumber, hdigit]) ht
  | string =>
    have hquote : c ≠ '"' := by
      rintro rfl
      exact hnone _ _ _ (.string List.not_mem_nil) rfl
    exact absurd (by simp [Terminal.matchLength, matchString, hquote]) ht
  | _ =>
    refine absurd (Terminal.matchLength_of_class (p := (· == c)) (by simp [Terminal.words]) ?_
      (beq_self_eq_true c) rest) ht
    intro word hword
    obtain ⟨kind, hlex⟩ := lexeme_of_mem_words hword
    have hhead := hnone _ _ _ hlex
    rcases hd : word.toList.head? with _ | d
    · rfl
    · rw [hd] at hhead
      simpa using hhead

/-- No terminal starts at a quote that no second one follows. -/
theorem matchLength_of_unterminated {rest : List Char} (h : '"' ∉ rest) (t : Terminal) :
    t.matchLength ('"' :: rest) = 0 := by
  have htake : rest.takeWhile (· != '"') = rest :=
    List.takeWhile_eq_self_iff.2 (Piece.bne_of_not_mem h)
  cases t with
  | string => simp [Terminal.matchLength, matchString, htake]
  | _ => rfl

/-- No program starts with a point. -/
theorem run_point (state : State) (line last : Int) (rest : List Char) :
    ∃ r, run state line last ('.' :: rest) = .error r := by
  have hskip : skipLayout line ('.' :: rest) = (line, '.' :: rest) := by
    rw [skipLayout]
    · rfl
    · intro tail h
      exact absurd h (by decide)
  rcases hrun : run state line last ('.' :: rest) with r | program
  · exact ⟨r, rfl⟩
  · obtain ⟨t, hmatch, -⟩ := exists_shift_of_run hskip hrun
    cases t <;> exact absurd rfl hmatch

/-- **A name that the scanner does not know**: where a program goes on at a
character that begins nothing, it goes on with a word that starts with a
numeral, and from there. -/
theorem name_of_run {line' line : Int} {text rest : List Char} {c : Char}
    (hskip : skipLayout line' text = (line, c :: rest)) (hc : BeginsNothing c) {state : State}
    {last : Int} {program : List Stmt} (h : run state line' last text = .ok program) :
    Unicode.isOtherNumeral c = true ∧ ∃ w after, rest = w ++ after ∧
      (∀ d ∈ c :: w, Unicode.isWordChar d = true) ∧
      (∀ d ∈ after.head?, Unicode.isWordChar d = false) ∧
      ∃ next more, run next line line after = .ok more := by
  obtain ⟨t, hmatch, next, -, -, more, hrest, -⟩ := exists_shift_of_run hskip h
  obtain ⟨rfl, hstart, hnumeral⟩ := eq_identifier_of_beginsNothing hc hmatch
  -- The name takes the word, which the text begins with.
  obtain ⟨w, after, rfl, hw, hafter⟩ : ∃ w after, rest = w ++ after ∧
      (∀ d ∈ w, Unicode.isWordChar d = true) ∧
      ∀ d ∈ after.head?, Unicode.isWordChar d = false :=
    ⟨_, _, List.takeWhile_append_dropWhile.symm, fun d hd => List.mem_takeWhile_imp hd,
      fun d hd => by
        have := List.head?_dropWhile_not Unicode.isWordChar rest
        rw [Option.mem_def.1 hd] at this
        simpa using this⟩
  have hword : ∀ d ∈ c :: w, Unicode.isWordChar d = true := by
    simp only [startsName, Bool.and_eq_true] at hstart
    exact List.forall_mem_cons.2 ⟨hstart.1.1, hw⟩
  have hsize : Terminal.identifier.matchLength (c :: (w ++ after)) = (c :: w).length := by
    rw [Terminal.matchLength, matchName, (takeWhile_append_of_head hafter w).1,
      List.takeWhile_eq_self_iff.2 hw] at hmatch ⊢
    split at hmatch
    · next h => exact if_pos h
    · exact absurd rfl hmatch
  have hlexeme : (c :: (w ++ after)).take (c :: w).length = c :: w := by simp
  have hleft : (w ++ after).drop ((c :: w).length - 1) = after := by simp
  rw [hsize, hlexeme, hleft, count_word hword, Int.natCast_zero, Int.add_zero] at hrest
  exact ⟨hnumeral, w, after, rfl, hword, hafter, next, more, hrest⟩

/-- **What the grammar reads is a program to the scanner, or spoken.** -/
theorem spoken_of_run {line : Int} {text : List Char} {state : State} {last : Int}
    {program : List Stmt} (h : run state line last text = .ok program) :
    Spoken (faultsFrom line (cut text)) := by
  obtain ⟨-, hskipped, hgap⟩ := cut_skipLayout line text
  have hshort := (skipLayout_suffix line text).length_le
  rw [hskipped]
  rcases hskip : skipLayout line text with ⟨start, _ | ⟨c, rest⟩⟩
  · simp [Spoken, cut, faultsFrom]
  rw [hskip] at hgap hshort
  have hshort : rest.length + 1 ≤ text.length := hshort
  rcases hread : Piece.read c rest with ⟨p, after⟩
  have hcut : cut (c :: rest) = p :: cut after := by rw [cut, hread]
  have hafter : after.length ≤ rest.length := by
    have := Piece.length_read_le c rest
    rwa [hread] at this
  simp only [hcut]
  cases p with
  | gap gap => exact absurd (by rw [hread]) (hgap c rest rfl gap)
  | token kind w =>
    rcases run_of_read hskip hread state last with ⟨-, r, hrun, -⟩ | ⟨next, stmt, -, hrun⟩
    · rw [hrun] at h
      cases h
    · rcases hrest : run next (start + w.count '\n') start after with r | more
      · rw [hrun, hrest] at h
        cases h
      · exact spoken_of_run hrest
  | unterminated w =>
    obtain ⟨rfl, hbody⟩ : c = '"' ∧ '"' ∉ rest := by
      have happ := Piece.append_of_read hread
      cases Piece.Fits.of_read hread with
      | unterminated hbody =>
        obtain ⟨rfl, rfl⟩ := List.cons.inj happ
        exact ⟨rfl, by simpa using hbody⟩
    obtain ⟨t, hmatch, -⟩ := exists_shift_of_run hskip h
    exact absurd (matchLength_of_unterminated hbody t) hmatch
  | stray d =>
    obtain ⟨rfl, rfl⟩ := List.cons.inj (Piece.append_of_read hread)
    have hnothing : BeginsNothing d := by
      cases Piece.Fits.of_read hread with
      | stray hnothing => exact hnothing
    obtain ⟨hnumeral, w, tail, rfl, hw, htail, next, more, hrest⟩ := name_of_run hskip hnothing h
    have hstop : ∀ e ∈ tail.head?, Unicode.isWordChar e = false ∧ e ≠ '.' := by
      rintro e he
      refine ⟨htail e he, ?_⟩
      rintro rfl
      obtain ⟨left, rfl⟩ : ∃ left, tail = '.' :: left := List.head?_eq_some_iff.1 he
      obtain ⟨r, hr⟩ := run_point next start start left
      cases hrest.symm.trans hr
    have hless : tail.length ≤ (w ++ tail).length := by simp
    obtain ⟨hafter, -⟩ := spoken_of_run hrest
    have hd : Unicode.isWordChar d = true := hw d List.mem_cons_self
    have hline : (Piece.stray d).endLine start = start := by
      have hcount : [d].count '\n' = 0 := count_word (by simpa using hd)
      simp [Piece.endLine, Piece.text, hcount]
    obtain ⟨strays, hstrays, heq⟩ := faultsFrom_word_append start hstop w
      (List.forall_mem_cons.1 hw).2
    rw [faultsFrom, hline, heq]
    refine ⟨List.forall_mem_cons.2 ⟨⟨d, start, rfl, hd⟩,
      List.forall_mem_append.2 ⟨hstrays, hafter⟩⟩, ?_⟩
    rintro f hf
    obtain rfl := Option.some.inj hf
    exact ⟨d, start, rfl, hnumeral⟩
termination_by text.length
decreasing_by all_goals omega

/-- A strict scan fails with all the faults that it finds. -/
theorem result_eq_error {s : Scan} {faults : List Source.Fault}
    (h : s.result false = .error faults) : s.faults = faults ∧ faults ≠ [] := by
  have herrors : s.errors false = s.faults := rfl
  rw [Scan.result, herrors] at h
  split at h
  · cases h
  · next hfaults =>
    have heq := Except.error.inj h
    exact ⟨heq, fun hnil => hfaults (heq.trans hnil)⟩

/-- **A source that the strict scan refuses is refused by the grammar too**,
or the scan finds fault with word characters alone, and first with a
numeral that is neither a letter nor a decimal digit. -/
theorem grammar_refuses_or_spoken (source : String) (faults : List Source.Fault)
    (h : (Source.scan source).result false = .error faults) :
    (∃ r, Grammar.parse source = .error r) ∨
      (∀ f ∈ faults, ∃ c line, f = .stray c line ∧ Unicode.isWordChar c = true) ∧
        ∃ c line more, faults = .stray c line :: more ∧ Unicode.isOtherNumeral c = true := by
  obtain ⟨rfl, hne⟩ := result_eq_error h
  rcases hrun : Grammar.parse source with r | program
  · exact .inl ⟨r, rfl⟩
  · obtain ⟨hall, hhead⟩ : Spoken (scan source).faults := spoken_of_run hrun
    obtain ⟨f, more, hfaults⟩ := List.exists_cons_of_ne_nil hne
    rw [hfaults] at hhead
    obtain ⟨c, line, rfl, hnumeral⟩ := hhead f rfl
    exact .inr ⟨hall, c, line, more, hfaults, hnumeral⟩

/-- A stray sign is refused both ways. -/
theorem grammar_refuses_at_sign : ∃ r, Grammar.parse "print @;" = .error r := by
  have hscan : (scan "print @;").result false = .error [.stray '@' 1] := by cbv
  rcases grammar_refuses_or_spoken _ _ hscan with hr | ⟨hall, -⟩
  · exact hr
  · obtain ⟨c, line, heq, hc⟩ := hall _ (List.mem_singleton_self _)
    obtain ⟨rfl, -⟩ := Source.Fault.stray.inj heq
    exact absurd hc (by decide)

/-- A superscript two begins nothing for the scanner, and a name for the
grammar. -/
theorem grammar_takes_superscript :
    (scan "²;").result false = .error [.stray '²' 1] ∧
      Grammar.parse "²;" = .ok [.expr (.var "²")] :=
  ⟨by cbv, by cbv⟩

end Lox.Grammar
