import Lox.Proofs.Source.Separated
/-!
# Lenient scans

A pass over a source which asks at each character that begins nothing
whether to be lenient, and nowhere else. It comes to what the scan of the
source says in either mode (`Pass.run_eq`). That a rejected character
counts as a space is `cut_spaced`: a space in its place neither joins nor
splits its neighbours, since no lexeme goes on over one and no comment or
string holds a rejected character.
-/

namespace Lox.Source

/-! ## The pass -/

/-- How far a pass over a source has come: the line it is on, the tokens
and errors it has collected, and the lines it has reported. -/
structure Pass where
  line : Int := 1
  tokens : List Token := []
  errors : List Fault := []
  notices : List String := []

/-- A pass takes one piece. A character that begins nothing is an error, or
is reported by a lenient pass. -/
def Pass.take (lenient : Bool) (s : Pass) (p : Piece) : Pass :=
  let s' := { s with line := p.endLine s.line }
  match p with
  | .gap _ => s'
  | .token kind text =>
    { s' with tokens := s.tokens ++ [⟨kind, String.ofList text, s'.line, literal kind text⟩] }
  | .stray c =>
    if lenient then { s' with notices := s.notices ++ (Fault.stray c s.line).notice?.toList }
    else { s' with errors := s.errors ++ [.stray c s.line] }
  | .unterminated _ => { s' with errors := s.errors ++ [.unterminated s'.line] }

/-- A pass goes on piece by piece, and closes the tokens at the end. -/
def Pass.run (lenient : Bool) (s : Pass) : List Char → Pass
  | [] => { s with tokens := s.tokens ++ [Token.eof s.line] }
  | c :: rest => Pass.run lenient (s.take lenient (Piece.read c rest).1) (Piece.read c rest).2
termination_by text => text.length
decreasing_by exact Nat.lt_succ_of_le (Piece.length_read_le c rest)

/-- The pass over a whole source. -/
def pass (lenient : Bool) (source : String) : Pass :=
  Pass.run lenient {} source.toList

/-- **What a pass finds** is added to what it has: the tokens among the
pieces that are left, and their faults as the mode judges them. -/
theorem Pass.run_eq (lenient : Bool) (s : Pass) (text : List Char) :
    let found : Scan := ⟨tokensFrom s.line (cut text), faultsFrom s.line (cut text)⟩
    (s.run lenient text).tokens = s.tokens ++ found.tokens ∧
      (s.run lenient text).errors = s.errors ++ found.errors lenient ∧
      (s.run lenient text).notices = s.notices ++ found.notices lenient := by
  fun_induction Pass.run lenient s text with
  | case1 => cases lenient <;> simp [cut, tokensFrom, faultsFrom, Scan.errors, Scan.notices]
  | case2 s c rest ih =>
    rw [cut]
    obtain ⟨htokens, herrors, hnotices⟩ := ih
    rcases hread : Piece.read c rest with ⟨p, after⟩
    rw [hread] at htokens herrors hnotices
    rw [htokens, herrors, hnotices]
    cases p <;> cases lenient <;>
      simp [Pass.take, tokensFrom, faultsFrom, Scan.errors, Scan.notices, Fault.isStray,
        Fault.notice?, List.filterMap_cons]

/-- The pass over a source comes to what its scan says, in either mode. -/
theorem pass_eq (lenient : Bool) (source : String) :
    (pass lenient source).tokens = (scan source).tokens ∧
      (pass lenient source).errors = (scan source).errors lenient ∧
      (pass lenient source).notices = (scan source).notices lenient := by
  simpa [pass, scan] using Pass.run_eq lenient {} source.toList

/-! ## What is reported instead -/

/-- A line that a lenient scan reports, for the error that a strict one
collects: the same character on the same line. -/
def Reports (notice : String) (f : Fault) : Prop :=
  ∃ (c : Char) (line : Int), f = .stray c line ∧
    f.diagnostic = ⟨"SyntaxError",
      "Unexpected character " ++ Text.quoted (String.singleton c) ++ ".", some line⟩ ∧
    notice = "[line " ++ String.ofList (Json.intDigits line) ++ "] Unexpected character "
      ++ Text.quoted (String.singleton c)

/-- The notices of some faults are those of the characters among them, in
order. -/
theorem forall₂_reports (fs : List Fault) :
    List.Forall₂ Reports (fs.filterMap Fault.notice?) (fs.filter Fault.isStray) := by
  induction fs with
  | nil => exact .nil
  | cons f fs ih =>
    cases f with
    | stray c line => exact .cons ⟨c, line, rfl, rfl, rfl⟩ ih
    | unterminated line => exact ih

/-- An unterminated string is the last fault, so there is one at most. -/
theorem Tokenized.filter_not_isStray {line : Int} {text : List Char} {ts : List Token}
    {fs : List Fault} (h : Tokenized line text ts fs) :
    fs.filter (!·.isStray) = [] ∨ ∃ last, fs.filter (!·.isStray) = [.unterminated last] := by
  induction h with
  | done => exact .inl rfl
  | blank _ _ ih | lineFeed _ ih | comment _ _ _ ih | lexeme _ _ _ ih | stray _ _ ih => exact ih
  | unterminated => exact .inr ⟨_, rfl⟩

/-- A lenient scan has a result unless a string is unterminated. -/
theorem Scan.result_true_iff (s : Scan) :
    s.result true = .ok s.tokens ↔ ∀ line, .unterminated line ∉ s.faults := by
  have hnil : s.errors true = [] ↔ ∀ line, .unterminated line ∉ s.faults := by
    rw [Scan.errors, if_pos rfl, List.filter_eq_nil_iff]
    refine ⟨fun h line hmem => h _ hmem rfl, fun h f hf hstray => ?_⟩
    cases f with
    | stray => exact absurd hstray (by simp [Fault.isStray])
    | unterminated line => exact h line hf
  rw [← hnil, Scan.result]
  split
  · next heq => simp [heq]
  · next hne => simpa using hne

/-! ## A space for each rejected character -/

/-- A piece with a space in the place of a character that begins nothing. -/
def Piece.spaced : Piece → Piece
  | .stray _ => .gap [' ']
  | p => p

/-- A text with a space for each character that a scan rejects. -/
def spacedText (text : List Char) : List Char :=
  (cut text).flatMap fun p => p.spaced.text

/-- A source with a space for each character that a scan rejects. -/
def spaced (source : String) : String :=
  String.ofList (spacedText source.toList)

/-- A character of the text, or a space where a rejected one was. -/
def IsSpaced (c d : Char) : Prop :=
  d = c ∨ BeginsNothing c ∧ d = ' '

/-- The spaced text differs from the text in rejected characters only. -/
theorem forall₂_isSpaced (text : List Char) :
    List.Forall₂ IsSpaced text (spacedText text) := by
  unfold spacedText
  fun_induction cut text with
  | case1 => exact .nil
  | case2 c rest ih =>
    rcases hread : Piece.read c rest with ⟨p, after⟩
    rw [hread] at ih
    rw [← Piece.append_of_read hread, List.flatMap_cons]
    have same (w : List Char) : List.Forall₂ IsSpaced w w :=
      List.forall₂_same.2 fun d _ => .inl rfl
    refine List.rel_append ?_ ih
    cases Piece.Fits.of_read hread with
    | stray hc => exact .cons (.inr ⟨hc, rfl⟩) .nil
    | blank | comment | token | unterminated => exact same _

/-- What holds no space and starts the spaced text starts the text. -/
theorem prefix_of_isSpaced {w text text' : List Char} (h : List.Forall₂ IsSpaced text text')
    (hw : w <+: text') (hspace : ' ' ∉ w) : w <+: text := by
  induction h generalizing w with
  | nil => exact hw
  | @cons c d text text' hd _ ih =>
    rcases w with _ | ⟨e, w⟩
    · exact List.nil_prefix
    obtain ⟨rfl, hw'⟩ := List.cons_prefix_cons.1 hw
    obtain ⟨he, hspace⟩ := not_or.1 (List.mem_cons.not.1 hspace)
    rcases hd with rfl | ⟨-, rfl⟩
    · exact List.cons_prefix_cons.2 ⟨rfl, ih hw' hspace⟩
    · exact absurd rfl he

/-- **Spaces after a lexeme do not make it part of a longer match**: what is
longer goes on over no space, so it would have been there before. -/
theorem IsLongest.of_isSpaced {lexeme after after' : List Char} {kind : Kind} {value : Json}
    (hlex : Lexeme lexeme kind value) (h : IsLongest lexeme (lexeme ++ after))
    (hspaced : List.Forall₂ IsSpaced after after') : IsLongest lexeme (lexeme ++ after') := by
  have before {w : List Char} (hw : w <+: after') (hspace : ' ' ∉ w) :
      lexeme ++ w <+: lexeme ++ after :=
    (List.prefix_append_right_inj lexeme).2 (prefix_of_isSpaced hspaced hw hspace)
  refine hlex.isLongest_append (fun beyond k v hbeyond hlonger => ?_) ?_
  · have hspace : ' ' ∉ beyond := fun hmem =>
      absurd (hlex.isSpace_of_append hlonger ' ' hmem) (by decide)
    have hlength := h _ (before hbeyond hspace) (.inl ⟨k, v, hlonger⟩)
    rw [List.length_append] at hlength
    exact List.length_eq_zero_iff.1 (by omega)
  · rintro rfl hslash
    obtain ⟨more, rfl⟩ := List.head?_eq_some_iff.1 hslash
    have hlength := h _ (before (List.prefix_append ['/'] more) (by decide))
      (.inr ⟨[], rfl, List.not_mem_nil⟩)
    exact absurd hlength (by decide)

/-- A piece keeps its place before the spaced text. -/
theorem Piece.Fits.spaced {p : Piece} {after after' : List Char} (h : p.Fits after)
    (hspaced : List.Forall₂ IsSpaced after after') : p.spaced.Fits after' := by
  cases h with
  | blank hblank => exact .blank hblank
  | comment hcomment hend =>
    refine .comment hcomment fun d hd => ?_
    cases hspaced with
    | nil => exact absurd hd (by simp)
    | @cons c e _ _ he =>
      obtain rfl := Option.some.inj hd
      obtain rfl := hend c rfl
      rcases he with rfl | ⟨hnothing, -⟩
      · rfl
      · exact absurd hnothing.1 (by decide)
  | token hlex hlong => exact .token hlex (hlong.of_isSpaced hlex hspaced)
  | stray => exact .blank rfl
  | unterminated hbody =>
    cases hspaced
    exact .unterminated hbody

/-- **The spaced text is cut where the text is.** -/
theorem cut_spaced (text : List Char) : cut (spacedText text) = (cut text).map Piece.spaced := by
  have hspaced := forall₂_isSpaced
  simp only [spacedText] at hspaced ⊢
  fun_induction cut text with
  | case1 => simp [cut]
  | case2 c rest ih =>
    rcases hread : Piece.read c rest with ⟨p, after⟩
    rw [hread] at ih
    rw [List.flatMap_cons, List.map_cons, ← ih]
    have hfits := (Piece.Fits.of_read hread).spaced (hspaced after)
    have hne : p.spaced.text ≠ [] := by
      have htext := Piece.text_read_ne_nil c rest
      rw [hread] at htext
      cases p with
      | stray => exact List.cons_ne_nil _ _
      | gap | token | unterminated => exact htext
    obtain ⟨d, w, hw⟩ := List.exists_cons_of_ne_nil hne
    rw [hw]
    exact cut_of_fits hfits (by rw [hw]; rfl)

example : spaced "1@.5 \"@\" /#/" = "1 .5 \"@\" / /" := by cbv

/-- What begins nothing is no line feed. -/
theorem BeginsNothing.ne_lineFeed {c : Char} (h : BeginsNothing c) : c ≠ '\n' := by
  rintro rfl
  exact absurd h.1 (by decide)

/-- **The spaced text has the tokens of the text**, and its faults without the
rejected characters. -/
theorem scan_spacedText (line : Int) (text : List Char) :
    tokensFrom line (cut (spacedText text)) = tokensFrom line (cut text) ∧
      faultsFrom line (cut (spacedText text))
        = (faultsFrom line (cut text)).filter (!·.isStray) := by
  rw [cut_spaced]
  fun_induction cut text generalizing line with
  | case1 => exact ⟨rfl, rfl⟩
  | case2 c rest ih =>
    rcases hread : Piece.read c rest with ⟨p, after⟩
    rw [hread] at ih
    obtain ⟨htokens, hfaults⟩ := ih (p.endLine line)
    -- A space and a rejected character end on the line they start on.
    have hline : p.spaced.endLine line = p.endLine line := by
      cases Piece.Fits.of_read hread with
      | stray hc => simp [Piece.spaced, Piece.endLine, Piece.text, hc.ne_lineFeed]
      | blank | comment | token | unterminated => rfl
    rw [List.map_cons]
    simp only [tokensFrom, faultsFrom, hline, htokens, hfaults]
    cases p <;> simp [Piece.spaced, Fault.isStray]

/-! ## The two modes -/

/-- **How the passes of the two modes differ**, and the strict one over the
spaced source. -/
structure Pass.DifferInStrays (strict lenient spaced : Pass) : Prop where
  tokens : lenient.tokens = strict.tokens
  /-- What one reports the other rejects, in the same order. -/
  notices : List.Forall₂ Reports lenient.notices (strict.errors.filter Fault.isStray)
  no_notices : strict.notices = []
  /-- Nothing else is an error for one of them alone. -/
  errors : lenient.errors = strict.errors.filter (!·.isStray)
  unterminated : lenient.errors = [] ∨ ∃ line, lenient.errors = [.unterminated line]
  spaced_tokens : spaced.tokens = lenient.tokens
  spaced_errors : spaced.errors = lenient.errors

/-- **A lenient scan and a strict one differ in rejected characters alone**,
for which the one reports a line where the other collects an error. Both
are passes as the scan of the source says, and the lenient one succeeds on
the sources without an unterminated string. -/
theorem lenient_scan (source : String) :
    (pass false source).DifferInStrays (pass true source) (pass false (spaced source)) ∧
      (∀ lenient, (scan source).tokens = (pass lenient source).tokens ∧
        (scan source).errors lenient = (pass lenient source).errors ∧
        (scan source).notices lenient = (pass lenient source).notices) ∧
      ((scan source).result true = .ok (pass false source).tokens ↔
        ∀ line, .unterminated line ∉ (pass false source).errors) := by
  obtain ⟨htokens, herrors, hnotices⟩ := pass_eq false source
  obtain ⟨htokens', herrors', hnotices'⟩ := pass_eq true source
  obtain ⟨hspaced, hfaults, -⟩ := pass_eq false (spaced source)
  have hscan := scan_spacedText 1 source.toList
  refine ⟨⟨?_, ?_, hnotices, ?_, ?_, ?_, ?_⟩, fun lenient => ?_, ?_⟩
  · rw [htokens, htokens']
  · rw [hnotices', herrors]
    exact forall₂_reports _
  · rw [herrors, herrors']
    rfl
  · rw [herrors']
    exact (tokenized_cut 1 source.toList).filter_not_isStray
  · rw [hspaced, htokens', scan, spaced, String.toList_ofList]
    exact hscan.1
  · rw [hfaults, herrors', scan, spaced, String.toList_ofList]
    exact hscan.2
  · obtain ⟨h, h', h''⟩ := pass_eq lenient source
    exact ⟨h.symm, h'.symm, h''.symm⟩
  · rw [htokens, herrors]
    exact Scan.result_true_iff _

end Lox.Source
