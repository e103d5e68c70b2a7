import Lox.Proofs.Program.Lines
import Lox.Proofs.Source.Tokenized
import Lox.Proofs.Unicode.Tables
/-!
# Layout around tokens

What a text without faults spells (`Spells`), and how little of that depends
on the layout around it. A text spells the same on other lines
(`Spells.mapLine`) and without the white space around it
(`Spells.of_append_spaces`, `Spells.of_spaces_append`), and two texts with a
line feed between them spell the tokens of both (`Spells.append_line`).
-/

namespace Lox.Source

open Unicode (isSpace)

/-- **The tokens that a text spells**, which starts on a line and has no
faults. -/
inductive Spells : Int → List Char → List Token → Prop
  | done {line : Int} : Spells line [] []
  /-- A blank or a line feed is passed over. -/
  | blank {line : Int} {c : Char} {rest : List Char} {ts : List Token} :
      Piece.isBlank c = true → Spells (line + [c].count '\n') rest ts → Spells line (c :: rest) ts
  /-- A comment runs up to a line feed or to the end. -/
  | comment {line : Int} {text rest : List Char} {ts : List Token} :
      IsComment text → (∀ c ∈ rest.head?, c = '\n') → Spells line rest ts →
      Spells line (text ++ rest) ts
  /-- The longest lexeme is a token, on the line where it ends. -/
  | lexeme {line : Int} {text rest : List Char} {kind : Kind} {literal : Json} {ts : List Token} :
      Lexeme text kind literal → IsLongest text (text ++ rest) →
      Spells (line + text.count '\n') rest ts →
      Spells line (text ++ rest)
        (⟨kind, String.ofList text, line + text.count '\n', literal⟩ :: ts)

variable {line : Int} {text : List Char} {ts us : List Token}

/-- No end token is spelled. -/
theorem Spells.ne_eof (h : Spells line text ts) : ∀ t ∈ ts, t.kind ≠ .eof := by
  induction h with
  | done => exact List.forall_mem_nil _
  | blank _ _ ih | comment _ _ _ ih => exact ih
  | lexeme hlex _ _ ih => exact List.forall_mem_cons.2 ⟨hlex.ne_eof, ih⟩

/-- What a text spells is how it is tokenized, up to its end. -/
theorem Spells.tokenized (h : Spells line text ts) :
    Tokenized line text (ts ++ [Token.eof (line + text.count '\n')]) [] := by
  induction h with
  | done => simpa using Tokenized.done
  | @blank line c rest ts hc _ ih =>
    have hcount : line + (c :: rest).count '\n' = line + [c].count '\n' + rest.count '\n' := by
      rw [← List.singleton_append, List.count_append]
      omega
    rw [hcount]
    exact .of_isBlank hc ih
  | @comment line text rest ts hcomment hend _ ih =>
    rw [List.count_append, count_comment hcomment, Nat.zero_add]
    exact .comment hcomment hend ih
  | @lexeme line text rest kind literal ts hlex hlong _ ih =>
    have hcount : line + (text ++ rest).count '\n'
        = line + text.count '\n' + rest.count '\n' := by
      rw [List.count_append]
      omega
    rw [hcount]
    exact .lexeme hlex hlong ih

/-- A text that is tokenized without faults spells all of its tokens but the
last one. -/
theorem Tokenized.exists_spells {fs : List Fault} (h : Tokenized line text ts fs) (hfs : fs = []) :
    ∃ us, ts = us ++ [Token.eof (line + text.count '\n')] ∧ Spells line text us := by
  induction h with
  | done => exact ⟨[], by simp, .done⟩
  | @blank line c rest ts fs hc _ ih =>
    obtain ⟨us, rfl, hspells⟩ := ih hfs
    have hcount : [c].count '\n' = 0 := by rcases hc with rfl | rfl | rfl <;> rfl
    have hblank : Piece.isBlank c = true := by rcases hc with rfl | rfl | rfl <;> rfl
    refine ⟨us, ?_, .blank hblank (by simpa [hcount] using hspells)⟩
    rw [← List.singleton_append (x := c), List.count_append, hcount, Nat.zero_add]
  | @lineFeed line rest ts fs _ ih =>
    obtain ⟨us, rfl, hspells⟩ := ih hfs
    refine ⟨us, ?_, .blank rfl (by simpa using hspells)⟩
    rw [List.count_cons_self]
    congr 3
    omega
  | @comment line text rest ts fs hcomment hend _ ih =>
    obtain ⟨us, rfl, hspells⟩ := ih hfs
    refine ⟨us, ?_, .comment hcomment hend hspells⟩
    rw [List.count_append, count_comment hcomment, Nat.zero_add]
  | @lexeme line text rest kind literal ts fs hlex hlong _ ih =>
    obtain ⟨us, rfl, hspells⟩ := ih hfs
    refine ⟨_ :: us, ?_, .lexeme hlex hlong hspells⟩
    rw [List.count_append, List.cons_append]
    congr 4
    omega
  | stray | unterminated => simp at hfs

/-- **A source has tokens** if its text spells them, up to the end token. -/
theorem scan_eq_ok_iff {source : String} :
    (scan source).result false = .ok ts ↔
      ∃ us, ts = us ++ [Token.eof (1 + source.toList.count '\n')] ∧ Spells 1 source.toList us := by
  rw [Scan.result_eq_ok_iff]
  constructor
  · rintro ⟨hfaults, rfl⟩
    exact (tokenized_cut 1 source.toList).exists_spells hfaults
  · rintro ⟨us, rfl, hspells⟩
    obtain ⟨htokens, hfaults⟩ := hspells.tokenized.eq_cut
    exact ⟨hfaults.symm, htokens.symm⟩

/-- What a text spells is unique. -/
theorem Spells.unique (h : Spells line text ts) (h' : Spells line text us) : ts = us :=
  List.append_left_injective _ (h.tokenized.eq_cut.1.trans h'.tokenized.eq_cut.1.symm)

/-- A text spells the same on other lines. -/
theorem Spells.mapLine (h : Spells line text ts) (k : Int) :
    Spells (line + k) text (ts.map (Token.mapLine (· + k))) := by
  induction h with
  | done => exact .done
  | blank hc _ ih =>
    rw [add_right_comm] at ih
    exact .blank hc ih
  | comment hcomment hend _ ih => exact .comment hcomment hend ih
  | lexeme hlex hlong _ ih =>
    simp only [List.map_cons, Token.mapLine, add_right_comm _ _ k] at ih ⊢
    exact .lexeme hlex hlong ih

/-! ## White space around a text -/

/-- A lexeme holds no white space, or is a string. -/
theorem Lexeme.forall_isSpace_or {text : List Char} {kind : Kind} {value : Json}
    (h : Lexeme text kind value) :
    (∀ c ∈ text, isSpace c = false) ∨ ∃ body, '"' ∉ body ∧ text = '"' :: body ++ ['"'] := by
  have hsign : ∀ p ∈ Kind.signs, p.1.toList.any isSpace = false := by decide
  have hletter {c : Char} (hc : Unicode.isLetter c = true) : isSpace c = false :=
    Unicode.isSpace_of_isWordChar (Unicode.isWordChar_of_isLetter hc)
  cases h with
  | sign hmem => exact .inl (by simpa using hsign _ hmem)
  | keyword hmem =>
    have hall := (isLetter_of_mem_keywords _ hmem).2
    rw [String.toList_ofList] at hall
    exact .inl fun c hc => hletter (hall c hc)
  | identifier hc hrest =>
    exact .inl (List.forall_mem_cons.2
      ⟨hletter hc, fun d hd => Unicode.isSpace_of_isWordChar (hrest d hd)⟩)
  | string hbody => exact .inr ⟨_, hbody, rfl⟩
  | number hnumeral =>
    refine .inl fun c hc => ?_
    rcases hnumeral.digit_or_point hc with hdigit | rfl
    · exact Unicode.isSpace_of_isWordChar (isWordChar_of_isDigit hdigit)
    · decide

/-- A lexeme starts with no white space. -/
theorem Lexeme.isSpace_head {text : List Char} {kind : Kind} {value : Json}
    (h : Lexeme text kind value) : ∃ c rest, text = c :: rest ∧ isSpace c = false := by
  obtain ⟨c, rest, rfl, -⟩ := h.read_self
  refine ⟨c, rest, rfl, ?_⟩
  rcases h.forall_isSpace_or with hall | ⟨body, -, heq⟩
  · exact hall c List.mem_cons_self
  · obtain ⟨rfl, -⟩ := List.cons.inj heq
    decide

/-- Nor does it end with any. -/
theorem Lexeme.isSpace_getLast {text : List Char} {kind : Kind} {value : Json}
    (h : Lexeme text kind value) : ∀ c ∈ text.getLast?, isSpace c = false := by
  intro c hc
  rcases h.forall_isSpace_or with hall | ⟨body, -, rfl⟩
  · exact hall c (List.mem_of_getLast? hc)
  · obtain rfl : '"' = c := by simpa only [List.getLast?_concat, Option.mem_some_iff] using hc
    decide

/-- Blanks are white space. -/
theorem isSpace_of_isBlank {c : Char} (h : Piece.isBlank c = true) : isSpace c = true := by
  simp only [Piece.isBlank, Bool.or_eq_true, beq_iff_eq] at h
  rcases h with ((rfl | rfl) | rfl) | rfl <;> decide

/-- White space before a text is blank, and passed over. -/
theorem Spells.of_isSpace {c : Char} {rest : List Char} (h : Spells line (c :: rest) ts)
    (hc : isSpace c = true) : Spells (line + [c].count '\n') rest ts := by
  generalize htext : c :: rest = text at h
  cases h with
  | done => cases htext
  | blank _ hrest =>
    obtain ⟨rfl, rfl⟩ := List.cons.inj htext
    exact hrest
  | comment hcomment =>
    obtain ⟨body, rfl, -⟩ := hcomment
    obtain ⟨rfl, -⟩ := List.cons.inj htext
    exact absurd hc (by decide)
  | lexeme hlex =>
    obtain ⟨d, w, rfl, hd⟩ := hlex.isSpace_head
    obtain ⟨rfl, -⟩ := List.cons.inj htext
    exact absurd hc (by simp [hd])

/-- **White space before a text changes only its lines.** -/
theorem Spells.of_spaces_append {lead : List Char} (hlead : ∀ c ∈ lead, isSpace c = true)
    (h : Spells line (lead ++ text) ts) : Spells (line + lead.count '\n') text ts := by
  induction lead generalizing line with
  | nil => simpa using h
  | cons c lead ih =>
    obtain ⟨hc, hlead⟩ := List.forall_mem_cons.1 hlead
    have hcount : line + (c :: lead).count '\n' = line + [c].count '\n' + lead.count '\n' := by
      rw [← List.singleton_append (x := c), List.count_append]
      omega
    rw [hcount]
    exact ih hlead (h.of_isSpace hc)

/-- An empty text spells nothing. -/
theorem Spells.eq_nil (h : Spells line [] ts) : ts = [] :=
  h.unique .done

/-- White space spells nothing. -/
theorem Spells.eq_nil_of_spaces (h : Spells line text ts) (htext : ∀ c ∈ text, isSpace c = true) :
    ts = [] :=
  Spells.eq_nil (Spells.of_spaces_append htext (by simpa using h))

/-- **White space after a text does not change what it spells.** -/
theorem Spells.of_append_spaces {tail : List Char} (h : Spells line (text ++ tail) ts)
    (htail : ∀ c ∈ tail, isSpace c = true) : Spells line text ts := by
  generalize heq : text ++ tail = whole at h
  induction h generalizing text with
  | done =>
    obtain ⟨rfl, -⟩ := List.append_eq_nil_iff.1 heq
    exact .done
  | @blank line c rest ts hc hrest ih =>
    obtain _ | ⟨d, text⟩ := text
    · obtain rfl : tail = c :: rest := heq
      rw [(Spells.blank hc hrest).eq_nil_of_spaces htail]
      exact .done
    · obtain ⟨rfl, htext⟩ := List.cons.inj heq
      exact .blank hc (ih htext)
  | @comment line body rest ts hcomment hend hrest ih =>
    rcases List.append_eq_append_iff.1 heq with ⟨more, rfl, rfl⟩ | ⟨more, rfl, rfl⟩
    · -- The text ends within the comment, but after its two slashes, which are no white space.
      have hends : ∀ c ∈ more, isSpace c = true := fun c hc =>
        htail c (List.mem_append_left _ hc)
      have hcut : IsComment text := by
        obtain ⟨slashes, heq', hline⟩ := hcomment
        have hslash : '/' ∉ more := fun hmem => absurd (hends '/' hmem) (by decide)
        rcases text with _ | ⟨c, _ | ⟨d, text⟩⟩
        · simp_all
        · simp_all
        · obtain ⟨rfl, rfl, rfl⟩ : c = '/' ∧ d = '/' ∧ text ++ more = slashes := by simpa using heq'
          exact ⟨text, rfl, fun hmem => hline (List.mem_append_left _ hmem)⟩
      have hnone : ts = [] := hrest.eq_nil_of_spaces fun c hc =>
        htail c (List.mem_append_right _ hc)
      subst hnone
      simpa using Spells.comment hcut (by simp) Spells.done
    · refine .comment hcomment (fun c hc => hend c ?_) (ih rfl)
      rw [List.head?_append, Option.mem_def.1 hc]
      rfl
  | @lexeme line lexeme rest kind value ts hlex hlong _ ih =>
    -- The lexeme does not end in white space, so the text holds all of it.
    obtain ⟨more, rfl, rfl⟩ : ∃ more, text = lexeme ++ more ∧ rest = more ++ tail := by
      rcases List.append_eq_append_iff.1 heq with ⟨more, rfl, rfl⟩ | ⟨more, rfl, rfl⟩
      · rcases List.eq_nil_or_concat more with rfl | ⟨init, c, rfl⟩
        · exact ⟨[], by simp⟩
        · have hspace : isSpace c = true := htail c (by simp)
          exact absurd hspace (by simp [hlex.isSpace_getLast c (by simp)])
      · exact ⟨more, rfl, rfl⟩
    exact .lexeme hlex (hlong.of_prefix (List.prefix_append _ _)) (ih rfl)

/-- What is trimmed from the end of a text is white space. -/
theorem exists_trimRight_append (text : List Char) :
    ∃ tail, Unicode.trimRight text ++ tail = text ∧ ∀ c ∈ tail, isSpace c = true := by
  refine ⟨(text.reverse.takeWhile isSpace).reverse, ?_, fun c hc => ?_⟩
  · rw [Unicode.trimRight, ← List.reverse_append, List.takeWhile_append_dropWhile,
      List.reverse_reverse]
  · exact List.mem_takeWhile_imp (List.mem_reverse.1 hc)

/-- A trimmed text spells what the text spells, without the lines of the
white space before it. -/
theorem Spells.trim (h : Spells line text ts) :
    Spells (line + (text.takeWhile isSpace).count '\n') (Unicode.trim text) ts := by
  obtain ⟨tail, happend, htail⟩ := exists_trimRight_append (text.dropWhile isSpace)
  rw [← List.takeWhile_append_dropWhile (p := isSpace) (l := text)] at h
  have hleft := Spells.of_spaces_append (fun c hc => List.mem_takeWhile_imp hc) h
  rw [← happend] at hleft
  exact hleft.of_append_spaces htail

/-! ## How a text ends -/

/-- Whether a text ends in a comment. -/
def EndsInComment (text : List Char) : Prop :=
  ∃ before comment, text = before ++ comment ∧ IsComment comment

/-- Whether a text ends in the last of some tokens. -/
def EndsInLast (ts : List Token) (text : List Char) : Prop :=
  ∃ t ∈ ts.getLast?, ∃ before, text = before ++ t.lexeme.toList ∧
    Lexeme t.lexeme.toList t.kind t.literal

/-- A text ends as what is at its end does. -/
theorem EndsInComment.append (h : EndsInComment text) (before : List Char) :
    EndsInComment (before ++ text) := by
  obtain ⟨more, comment, rfl, hcomment⟩ := h
  exact ⟨before ++ more, comment, by simp, hcomment⟩

/-- And in the last of any more tokens before those at its end. -/
theorem EndsInLast.append (h : EndsInLast ts text) (init : List Token) (before : List Char) :
    EndsInLast (init ++ ts) (before ++ text) := by
  obtain ⟨t, ht, more, rfl, hlex⟩ := h
  refine ⟨t, ?_, before ++ more, by simp, hlex⟩
  rw [List.getLast?_append, Option.mem_def.1 ht]
  rfl

/-- **A text that does not end in white space** ends in a comment or in its
last token. -/
theorem Spells.ends_cases (h : Spells line text ts) (hne : text ≠ [])
    (hlast : ∀ c ∈ text.getLast?, isSpace c = false) :
    EndsInComment text ∨ EndsInLast ts text := by
  -- What follows a first item ends in no white space either.
  have htail (before : List Char) {rest : List Char}
      (h : ∀ c ∈ (before ++ rest).getLast?, isSpace c = false) (hrest : rest ≠ []) :
      ∀ c ∈ rest.getLast?, isSpace c = false := by
    intro c hc
    refine h c ?_
    rw [List.getLast?_append, Option.mem_def.1 hc]
    rfl
  induction h with
  | done => exact absurd rfl hne
  | @blank line c rest ts hc _ ih =>
    obtain rfl | hrest := eq_or_ne rest []
    · exact absurd (isSpace_of_isBlank hc) (by simp [hlast c rfl])
    · exact (ih hrest (htail [c] hlast hrest)).imp (·.append [c]) (·.append [] [c])
  | @comment line text rest ts hcomment _ _ ih =>
    obtain rfl | hrest := eq_or_ne rest []
    · exact .inl ⟨[], text, by simp, hcomment⟩
    · exact (ih hrest (htail text hlast hrest)).imp (·.append text) (·.append [] text)
  | @lexeme line text rest kind value ts hlex _ hspells ih =>
    obtain rfl | hrest := eq_or_ne rest []
    · obtain rfl := hspells.eq_nil
      exact .inr ⟨_, rfl, [], by simp, by simpa using hlex⟩
    · exact (ih hrest (htail text hlast hrest)).imp (·.append text) (·.append [_] text)

/-- A semicolon is written as one. -/
theorem Lexeme.eq_of_semicolon {text : List Char} {value : Json}
    (h : Lexeme text .semicolon value) : text = [';'] := by
  have hsign : ∀ p ∈ Kind.signs, p.2 = .semicolon → p.1.toList = [';'] := by decide
  have hword : ∀ p ∈ Kind.keywords, p.2 ≠ .semicolon := by decide
  cases h with
  | sign hmem => simpa using hsign _ hmem rfl
  | keyword hmem => exact absurd rfl (hword _ hmem)

/-! ## Texts one after the other -/

/-- A lexeme that starts with a quote is a string. -/
theorem Lexeme.string_of_quote {rest : List Char} {kind : Kind} {value : Json}
    (h : Lexeme ('"' :: rest) kind value) : ∃ body, '"' ∉ body ∧ rest = body ++ ['"'] := by
  have hsign : ∀ p ∈ Kind.signs, p.1.toList.head? ≠ some '"' := by decide
  generalize htext : '"' :: rest = text at h
  cases h with
  | sign hmem => exact absurd (by simp [← htext]) (hsign _ hmem)
  | keyword hmem =>
    have hletter := (isLetter_of_mem_keywords _ hmem).2 '"' (by simp [← htext])
    exact absurd hletter (by decide)
  | identifier hc =>
    obtain ⟨rfl, -⟩ := List.cons.inj htext
    exact absurd hc (by decide)
  | string hbody => exact ⟨_, hbody, (List.cons.inj htext).2⟩
  | number hnumeral =>
    have hdigit := hnumeral.digit_or_point (c := '"') (by simp [← htext])
    exact absurd hdigit (by decide)

/-- A string ends at its second quote. -/
theorem eq_nil_of_concat_eq {body inner rest : List Char} (hbody : '"' ∉ body)
    (h : body ++ ['"'] = inner ++ '"' :: rest) : rest = [] := by
  by_contra hne
  have hlast := congrArg List.dropLast h
  rw [List.dropLast_concat, List.dropLast_append_of_ne_nil (List.cons_ne_nil _ _),
    List.dropLast_cons_of_ne_nil hne] at hlast
  exact hbody (by simp [hlast])

/-- A longer lexeme does not go on over white space: only a string does, and
that has an end of its own. -/
theorem Lexeme.isSpace_of_append {lexeme more : List Char} {kind kind' : Kind}
    {value value' : Json} (h : Lexeme lexeme kind value)
    (hlonger : Lexeme (lexeme ++ more) kind' value') : ∀ c ∈ more, isSpace c = false := by
  intro c hc
  rcases hlonger.forall_isSpace_or with hall | ⟨body, hbody, heq⟩
  · exact hall c (List.mem_append_right _ hc)
  · obtain ⟨d, w, rfl, -⟩ := h.isSpace_head
    obtain ⟨rfl, hw⟩ := List.cons.inj heq
    obtain ⟨inner, -, rfl⟩ := h.string_of_quote
    have hbodies : body ++ ['"'] = inner ++ '"' :: more := by simpa using hw.symm
    rw [eq_nil_of_concat_eq hbody hbodies] at hc
    exact absurd hc List.not_mem_nil

/-- So the longest match in a line is the longest before further lines. -/
theorem IsLongest.before_lineFeed {lexeme rest : List Char} {kind : Kind} {value : Json}
    (hlex : Lexeme lexeme kind value) (h : IsLongest lexeme (lexeme ++ rest)) (more : List Char) :
    IsLongest lexeme (lexeme ++ (rest ++ '\n' :: more)) := by
  intro other hother hkind
  rw [← List.append_assoc] at hother
  rcases List.prefix_or_prefix_of_prefix hother (List.prefix_append _ _) with
    hwithin | ⟨beyond, rfl⟩
  · exact h other hwithin hkind
  rcases beyond with _ | ⟨c, beyond⟩
  · exact h _ (by simp) hkind
  obtain ⟨rfl, -⟩ := List.cons_prefix_cons.1 ((List.prefix_append_right_inj _).1 hother)
  rcases hkind with ⟨k, v, hlonger⟩ | ⟨body, heq, hline⟩
  · rw [List.append_assoc] at hlonger
    exact absurd (hlex.isSpace_of_append hlonger '\n' (by simp)) (by decide)
  · have hmem : '\n' ∈ '/' :: '/' :: body := heq ▸ by simp
    exact absurd hmem (by simp [hline])

/-- **Two texts with a line feed between them spell the tokens of both**,
those of the second on the lines after the first. -/
theorem Spells.append_line (h : Spells line text ts) {more : List Char}
    (h' : Spells (line + text.count '\n' + 1) more us) :
    Spells line (text ++ '\n' :: more) (ts ++ us) := by
  induction h with
  | done => exact .blank rfl (by simpa using h')
  | @blank line c rest ts hc _ ih =>
    refine .blank hc (ih ?_)
    rwa [← List.singleton_append (x := c), List.count_append, Nat.cast_add, ← add_assoc] at h'
  | @comment line text rest ts hcomment hend _ ih =>
    rw [List.append_assoc]
    refine .comment hcomment (fun c hc => ?_) (ih ?_)
    · rcases rest with _ | ⟨d, rest⟩
      · exact (Option.some.inj hc).symm
      · exact hend c hc
    · rwa [List.count_append, count_comment hcomment, Nat.zero_add] at h'
  | @lexeme line text rest kind value ts hlex hlong _ ih =>
    rw [List.append_assoc]
    refine .lexeme hlex (hlong.before_lineFeed hlex more) (ih ?_)
    rwa [List.count_append, Nat.cast_add, ← add_assoc] at h'

end Lox.Source
