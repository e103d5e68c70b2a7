import Lox.Proofs.Source.Lexeme
/-!
# Longest-match tokenization

`Tokenized` says which tokens and which faults a text has, item by item
from the front, in terms of the lexical classes alone. A piece that the
scanner reads is an item (`Piece.fits_read`) and the only one that stands
there (`Piece.Fits.read_eq`), so the relation is the graph of the scan.
-/

namespace Lox.Source

/-- A character between lexemes that is neither blank nor the first of any
lexeme. -/
def BeginsNothing (c : Char) : Prop :=
  Piece.isBlank c = false ∧ ∀ text kind literal, Lexeme text kind literal → text.head? ≠ some c

/-- **Longest-match tokenization**: the tokens and the faults of a text
that starts on a line. -/
inductive Tokenized : Int → List Char → List Token → List Fault → Prop
  /-- After the last item comes the end token. -/
  | done {line : Int} : Tokenized line [] [Token.eof line] []
  /-- A space, a tab or a carriage return is passed over. -/
  | blank {line : Int} {c : Char} {rest : List Char} {ts : List Token} {fs : List Fault} :
      c = ' ' ∨ c = '\t' ∨ c = '\r' → Tokenized line rest ts fs → Tokenized line (c :: rest) ts fs
  /-- A line feed ends a line. -/
  | lineFeed {line : Int} {rest : List Char} {ts : List Token} {fs : List Fault} :
      Tokenized (line + 1) rest ts fs → Tokenized line ('\n' :: rest) ts fs
  /-- A comment runs up to a line feed or to the end. -/
  | comment {line : Int} {text rest : List Char} {ts : List Token} {fs : List Fault} :
      IsComment text → (∀ c ∈ rest.head?, c = '\n') → Tokenized line rest ts fs →
      Tokenized line (text ++ rest) ts fs
  /-- The longest lexeme is a token, on the line where it ends. -/
  | lexeme {line : Int} {text rest : List Char} {kind : Kind} {literal : Json}
      {ts : List Token} {fs : List Fault} :
      Lexeme text kind literal → IsLongest text (text ++ rest) →
      Tokenized (line + text.count '\n') rest ts fs →
      Tokenized line (text ++ rest)
        (⟨kind, String.ofList text, line + text.count '\n', literal⟩ :: ts) fs
  /-- A character that begins nothing is a fault. -/
  | stray {line : Int} {c : Char} {rest : List Char} {ts : List Token} {fs : List Fault} :
      BeginsNothing c → Tokenized line rest ts fs →
      Tokenized line (c :: rest) ts (.stray c line :: fs)
  /-- A quote that no second one follows is a fault, and takes all that is
  left. -/
  | unterminated {line : Int} {body : List Char} :
      '"' ∉ body → Tokenized line ('"' :: body) [Token.eof (line + body.count '\n')]
        [.unterminated (line + body.count '\n')]

namespace Piece

/-- What a piece is before the text that follows it, by the lexical
classes. -/
inductive Fits : Piece → List Char → Prop
  | blank {c : Char} {rest : List Char} : isBlank c = true → Fits (gap [c]) rest
  | comment {text rest : List Char} :
      IsComment text → (∀ c ∈ rest.head?, c = '\n') → Fits (gap text) rest
  | token {kind : Kind} {text rest : List Char} :
      Lexeme text kind (literal kind text) → IsLongest text (text ++ rest) →
      Fits (token kind text) rest
  | stray {c : Char} {rest : List Char} : BeginsNothing c → Fits (stray c) rest
  | unterminated {body : List Char} : '"' ∉ body → Fits (unterminated ('"' :: body)) []

/-! ## What is read fits -/

/-- A word is a keyword or an identifier. -/
theorem lexeme_word {c : Char} {w : List Char} (hc : Unicode.isLetter c = true)
    (hw : ∀ d ∈ w, Unicode.isWordChar d = true) :
    Lexeme (c :: w) (Kind.ofWord (String.ofList (c :: w)))
      (literal (Kind.ofWord (String.ofList (c :: w))) (c :: w)) := by
  have hnull : ∀ p ∈ Kind.keywords, literal p.2 (c :: w) = .null := by
    simp [Kind.keywords, literal]
  rcases ofWord_cases (String.ofList (c :: w)) with hmem | ⟨hkind, hnone⟩
  · rw [hnull _ hmem]
    exact .keyword hmem
  · rw [hkind]
    exact .identifier hc hw hnone

/-- A fraction is none, or a point and digits. -/
theorem splitFraction_cases (rest : List Char) :
    (splitFraction rest).1 = [] ∨
      ∃ fraction, IsDigits fraction ∧ (splitFraction rest).1 = '.' :: fraction := by
  unfold splitFraction
  split
  · next d rest =>
    split
    · next hd =>
      refine .inr ⟨d :: rest.takeWhile Char.isDigit, ⟨List.cons_ne_nil _ _, ?_⟩, rfl⟩
      intro e he
      rcases List.mem_cons.1 he with rfl | he
      · exact hd
      · exact List.mem_takeWhile_imp he
    · exact .inl rfl
  · exact .inl rfl

/-- Digits and a fraction are a numeral. -/
theorem isNumeral_read {c : Char} (hc : c.isDigit = true) (rest : List Char) :
    IsNumeral
      (c :: rest.takeWhile Char.isDigit ++ (splitFraction (rest.dropWhile Char.isDigit)).1) := by
  have hwhole : IsDigits (c :: rest.takeWhile Char.isDigit) := by
    refine ⟨List.cons_ne_nil _ _, fun d hd => ?_⟩
    rcases List.mem_cons.1 hd with rfl | hd
    · exact hc
    · exact List.mem_takeWhile_imp hd
  rcases splitFraction_cases (rest.dropWhile Char.isDigit) with h | ⟨fraction, hf, h⟩
  · rw [h, List.append_nil]
    exact .inl hwhole
  · rw [h]
    exact .inr ⟨_, fraction, hwhole, hf, rfl⟩

/-- What is read up to a character does not hold it. -/
theorem not_mem_takeWhile_bne (c : Char) (text : List Char) : c ∉ text.takeWhile (· != c) := by
  intro hmem
  simpa using List.mem_takeWhile_imp hmem

/-- And what is left starts with it. -/
theorem eq_of_mem_head?_dropWhile_bne {c d : Char} {text : List Char}
    (h : d ∈ (text.dropWhile (· != c)).head?) : d = c := by
  have := List.head?_dropWhile_not (· != c) text
  rw [Option.mem_def.1 h] at this
  simpa using this

/-- What is read and what is left are the text. -/
theorem append_of_read {c : Char} {rest after : List Char} {p : Piece}
    (h : read c rest = (p, after)) : p.text ++ after = c :: rest := by
  have := read_append c rest
  rwa [h] at this

/-- The readers, each with the characters that it starts at. -/
theorem read_cases (c : Char) (rest : List Char) :
    (∃ kind, single? c = some kind ∧ read c rest = (token kind [c], rest)) ∨
    (∃ alone extended, extensible? c = some (alone, extended) ∧
      read c rest = readSign c alone extended rest) ∨
    (c = '/' ∧ read c rest = readSlash rest) ∨
    (isBlank c = true ∧ read c rest = (gap [c], rest)) ∨
    (c = '"' ∧ read c rest = readString rest) ∨
    (c.isDigit = true ∧ read c rest = readNumber c rest) ∨
    (Unicode.isLetter c = true ∧ read c rest = readWord c rest) ∨
    ((∀ text, read c text = (stray c, text)) ∧ isBlank c = false) := by
  unfold read
  rcases hs : single? c with _ | kind
  · rcases he : extensible? c with _ | ⟨alone, extended⟩
    · by_cases hslash : c = '/'
      · simp [hslash]
      · by_cases hblank : isBlank c = true
        · simp [hslash, hblank]
        · by_cases hquote : c = '"'
          · subst hquote
            simp [show isBlank '"' = false from rfl]
          · by_cases hdigit : c.isDigit = true
            · simp [hslash, hblank, hquote, hdigit]
            · by_cases hletter : Unicode.isLetter c = true
              · simp [hslash, hblank, hquote, hdigit, hletter]
              · simp [hslash, hblank, hquote, hdigit, hletter]
    · simp
  · simp

/-- **What is read as a token is the longest match.** -/
theorem isLongest_of_read {c : Char} {rest after text : List Char} {kind : Kind}
    (h : read c rest = (token kind text, after)) : IsLongest text (c :: rest) := by
  rintro other ⟨more, hother⟩ (⟨k, l, hlex⟩ | ⟨body, rfl, -⟩)
  · obtain ⟨d, w, rfl, hread⟩ := hlex.read_append
    obtain ⟨rfl, hw⟩ := List.cons.inj hother
    have := hread more
    rwa [show w ++ more = rest from hw, h] at this
  · obtain ⟨rfl, rfl⟩ := List.cons.inj hother
    have hgap : (read '/' (('/' :: body).append more)).1 = gap _ := rfl
    rw [h] at hgap
    exact absurd hgap (by simp)

/-- So a token that is read fits if it is a lexeme. -/
theorem fits_token {c : Char} {rest after text : List Char} {kind : Kind}
    (h : read c rest = (token kind text, after)) (hlex : Lexeme text kind (literal kind text)) :
    Fits (read c rest).1 (read c rest).2 := by
  have happ : text ++ after = c :: rest := append_of_read h
  rw [h]
  exact .token hlex (happ ▸ isLongest_of_read h)

/-- A sign that stands alone is a lexeme. -/
theorem lexeme_single {c : Char} {kind : Kind} (h : single? c = some kind) :
    Lexeme [c] kind (literal kind [c]) := by
  revert h
  unfold single?
  split <;> rintro ⟨⟩ <;> exact .sign (by decide)

/-- A sign is a lexeme, extended or not. -/
theorem lexeme_extensible {c : Char} {alone extended : Kind}
    (h : extensible? c = some (alone, extended)) :
    Lexeme [c] alone (literal alone [c]) ∧
      Lexeme [c, '='] extended (literal extended [c, '=']) := by
  revert h
  unfold extensible?
  split <;> rintro ⟨⟩ <;> exact ⟨.sign (by decide), .sign (by decide)⟩

/-- **What is read fits what follows it.** -/
theorem fits_read (c : Char) (rest : List Char) : Fits (read c rest).1 (read c rest).2 := by
  rcases read_cases c rest with ⟨kind, hs, hread⟩ | ⟨alone, extended, he, hread⟩ | ⟨rfl, hread⟩ |
    ⟨hblank, hread⟩ | ⟨rfl, hread⟩ | ⟨hdigit, hread⟩ | ⟨hletter, hread⟩ | ⟨hread, hblank⟩
  · exact fits_token hread (lexeme_single hs)
  · unfold readSign at hread
    split at hread
    · exact fits_token hread (lexeme_extensible he).2
    · exact fits_token hread (lexeme_extensible he).1
  · unfold readSlash at hread
    split at hread
    · next rest =>
      rw [hread]
      exact .comment ⟨_, rfl, not_mem_takeWhile_bne '\n' rest⟩
        fun d hd => eq_of_mem_head?_dropWhile_bne hd
    · exact fits_token hread (.sign (by decide))
  · rw [hread]
    exact .blank hblank
  · have hbody := not_mem_takeWhile_bne '"' rest
    simp only [readString] at hread
    split at hread
    · rw [hread]
      exact .unterminated hbody
    · next quote after hd =>
      obtain rfl : quote = '"' := eq_of_mem_head?_dropWhile_bne (congrArg List.head? hd)
      refine fits_token hread ?_
      simpa [literal] using Lexeme.string hbody
  · have hnum := isNumeral_read hdigit rest
    exact fits_token hread (.number hnum (Decimal.readFloat?_of_isNumeral hnum))
  · exact fits_token hread (lexeme_word hletter fun d hd => List.mem_takeWhile_imp hd)
  · rw [hread]
    refine .stray ⟨hblank, fun text kind value hlex hhead => ?_⟩
    obtain ⟨d, w, rfl, hself, -⟩ := hlex.read_self
    obtain rfl : d = c := by simpa using hhead
    rw [hread] at hself
    exact absurd hself (by simp)

/-- A reading gives a piece that fits what it leaves. -/
theorem Fits.of_read {c : Char} {rest after : List Char} {p : Piece}
    (h : read c rest = (p, after)) : Fits p after := by
  have := fits_read c rest
  rwa [h] at this

/-! ## What fits is read -/

/-- A blank is read alone. -/
theorem read_of_isBlank {c : Char} (h : isBlank c = true) (rest : List Char) :
    read c rest = (gap [c], rest) := by
  simp only [isBlank, Bool.or_eq_true, beq_iff_eq] at h
  rcases h with ((rfl | rfl) | rfl) | rfl <;> rfl

/-- A comment is read up to its end. -/
theorem read_of_isComment {c : Char} {text rest after : List Char} (hcomment : IsComment text)
    (hend : ∀ d ∈ after.head?, d = '\n') (htext : text ++ after = c :: rest) :
    read c rest = (gap text, after) := by
  obtain ⟨body, rfl, hbody⟩ := hcomment
  obtain ⟨rfl, rfl⟩ := List.cons.inj htext
  have hline := bne_of_not_mem hbody
  have hstop : after.takeWhile (· != '\n') = [] ∧ after.dropWhile (· != '\n') = after := by
    obtain _ | ⟨d, after⟩ := after
    · exact ⟨rfl, rfl⟩
    · obtain rfl := hend d rfl
      exact ⟨rfl, rfl⟩
  calc read '/' ('/' :: (body ++ after))
      = (gap ('/' :: '/' :: (body ++ after).takeWhile (· != '\n')),
          (body ++ after).dropWhile (· != '\n')) := rfl
    _ = (gap ('/' :: '/' :: body), after) := by
        rw [List.takeWhile_append_of_pos hline, List.dropWhile_append_of_pos hline, hstop.1,
          hstop.2, List.append_nil]

/-- A character that begins nothing is read as a stray. -/
theorem read_of_beginsNothing {c : Char} (h : BeginsNothing c) (rest : List Char) :
    read c rest = (stray c, rest) := by
  rcases hread : read c rest with ⟨p, left⟩
  have happ := append_of_read hread
  cases Fits.of_read hread with
  | blank hblank =>
    obtain ⟨rfl, -⟩ := List.cons.inj happ
    rw [h.1] at hblank
    exact absurd hblank (by decide)
  | comment hcomment =>
    obtain ⟨body, rfl, -⟩ := hcomment
    obtain ⟨rfl, -⟩ := List.cons.inj happ
    exact absurd rfl (h.2 ['/'] .slash .null (.sign (by decide)))
  | token hlex =>
    obtain ⟨d, w, rfl, -⟩ := hlex.read_self
    obtain ⟨rfl, -⟩ := List.cons.inj happ
    exact absurd rfl (h.2 _ _ _ hlex)
  | stray =>
    obtain ⟨rfl, rfl⟩ := List.cons.inj happ
    rfl
  | unterminated =>
    obtain ⟨rfl, -⟩ := List.cons.inj happ
    exact absurd rfl (h.2 _ _ _ (Lexeme.string List.not_mem_nil))

/-- The longest lexeme at the start of a text is read there. -/
theorem read_of_isLongest {c : Char} {rest after text : List Char} {kind : Kind} {value : Json}
    (hlex : Lexeme text kind value) (hlong : IsLongest text (text ++ after))
    (htext : text ++ after = c :: rest) : read c rest = (token kind text, after) := by
  obtain ⟨d, w, rfl, hself, -⟩ := hlex.read_self
  obtain ⟨e, u, heq, hlen⟩ := hlex.read_append
  obtain ⟨rfl, rfl⟩ := List.cons.inj heq
  obtain ⟨rfl, rfl⟩ := List.cons.inj htext
  have hlen := hlen after
  change read d (w ++ after) = _
  -- whatever is read there, its text and the lexeme are as long as each other
  have same : ∀ {other left}, other ++ left = d :: (w ++ after) →
      (d :: w).length ≤ other.length → other.length ≤ (d :: w).length →
      other = d :: w ∧ left = after := by
    intro other left happ hle hge
    exact List.append_inj happ (le_antisymm hge hle)
  rcases hread : read d (w ++ after) with ⟨p, left⟩
  have happ := append_of_read hread
  rw [hread] at hlen
  cases Fits.of_read hread with
  | blank hblank =>
    obtain ⟨rfl, -⟩ := List.cons.inj happ
    rw [read_of_isBlank hblank] at hself
    exact absurd hself (by simp)
  | comment hcomment hend =>
    obtain ⟨rfl, rfl⟩ := same happ hlen (hlong _ ⟨_, happ⟩ (.inr hcomment))
    rw [read_of_isComment hcomment (fun d hd => absurd hd (by simp)) (List.append_nil _)] at hself
    exact absurd hself (by simp)
  | token hlex' hlong' =>
    obtain ⟨rfl, rfl⟩ := same happ hlen (hlong _ ⟨_, happ⟩ (.inl ⟨_, _, hlex'⟩))
    rw [(hlex.unique hlex').1]
  | stray hc =>
    obtain ⟨rfl, -⟩ := List.cons.inj happ
    exact absurd rfl (hc.2 _ _ _ hlex)
  | @unterminated body hbody =>
    rw [text, List.append_nil] at happ
    obtain ⟨rfl, rfl⟩ := List.cons.inj happ
    have hw : '"' ∉ w := fun hmem => hbody (List.mem_append_left _ hmem)
    have : read '"' w = readString w := rfl
    rw [this, readString_of_not_mem hw] at hself
    exact absurd hself (by simp)

/-- **What fits a text is read from it.** -/
theorem Fits.read_eq {p : Piece} {c : Char} {rest after : List Char} (h : Fits p after)
    (htext : p.text ++ after = c :: rest) : read c rest = (p, after) := by
  cases h with
  | blank hblank =>
    obtain ⟨rfl, rfl⟩ := List.cons.inj htext
    exact read_of_isBlank hblank _
  | comment hcomment hend => exact read_of_isComment hcomment hend htext
  | token hlex hlong => exact read_of_isLongest hlex hlong htext
  | stray hc =>
    obtain ⟨rfl, rfl⟩ := List.cons.inj htext
    exact read_of_beginsNothing hc _
  | @unterminated body hbody =>
    rw [text, List.append_nil] at htext
    obtain ⟨rfl, rfl⟩ := List.cons.inj htext
    exact readString_of_not_mem hbody

end Piece

/-! ## The scan is the tokenization -/

/-- Tokenization goes on before a blank. -/
theorem Tokenized.of_isBlank {line : Int} {c : Char} {rest : List Char} {ts : List Token}
    {fs : List Fault} (hc : Piece.isBlank c = true)
    (h : Tokenized (line + [c].count '\n') rest ts fs) : Tokenized line (c :: rest) ts fs := by
  simp only [Piece.isBlank, Bool.or_eq_true, beq_iff_eq] at hc
  rcases hc with ((rfl | rfl) | rfl) | rfl
  · exact .blank (.inl rfl) (by simpa using h)
  · exact .blank (.inr (.inr rfl)) (by simpa using h)
  · exact .blank (.inr (.inl rfl)) (by simpa using h)
  · exact .lineFeed (by simpa using h)

/-- A comment has no line feed. -/
theorem count_comment {text : List Char} (h : IsComment text) : text.count '\n' = 0 := by
  obtain ⟨body, rfl, hbody⟩ := h
  rw [List.count_eq_zero]
  simpa using hbody

/-- Only a string goes on over a line feed. -/
theorem Lexeme.kind_of_mem {text : List Char} {kind : Kind} {value : Json}
    (h : Lexeme text kind value) (hline : '\n' ∈ text) : kind = .string := by
  have hsign : ∀ p ∈ Kind.signs, '\n' ∉ p.1.toList := by decide
  have hword : ∀ p ∈ Kind.keywords, '\n' ∉ p.1.toList := by decide
  cases h with
  | sign hmem => exact absurd hline (by simpa using hsign _ hmem)
  | keyword hmem => exact absurd hline (by simpa using hword _ hmem)
  | @identifier c rest hc hrest =>
    have hmem : Unicode.isWordChar '\n' = true := by
      rcases List.mem_cons.1 hline with rfl | hmem
      · exact Unicode.isWordChar_of_isLetter hc
      · exact hrest _ hmem
    exact absurd hmem (by decide)
  | string => rfl
  | number hnumeral => exact absurd (hnumeral.digit_or_point hline) (by decide)

/-- **The tokens and faults of a scan are those of the tokenization.** -/
theorem tokenized_cut (line : Int) (text : List Char) :
    Tokenized line text (tokensFrom line (cut text)) (faultsFrom line (cut text)) := by
  fun_induction cut text generalizing line with
  | case1 => exact .done
  | case2 c rest ih =>
    -- The first piece fits what it leaves, and the rest is tokenized from the line it ends on.
    rcases hread : Piece.read c rest with ⟨p, after⟩
    rw [hread] at ih
    rw [← Piece.append_of_read hread]
    cases Piece.Fits.of_read hread with
    | blank hblank => exact .of_isBlank hblank (ih _)
    | comment hcomment hend =>
      refine .comment hcomment hend ?_
      simpa [tokensFrom, faultsFrom, Piece.endLine, Piece.text, count_comment hcomment]
        using ih line
    | token hlex hlong => exact .lexeme hlex hlong (ih _)
    | @stray d _ hd =>
      have hline : d ≠ '\n' := by
        rintro rfl
        exact absurd hd.1 (by decide)
      refine .stray hd ?_
      simpa [tokensFrom, faultsFrom, Piece.endLine, Piece.text, hline] using ih line
    | @unterminated body hbody =>
      simpa [cut, tokensFrom, faultsFrom, Piece.endLine, Piece.text] using
        @Tokenized.unterminated line body hbody

/-- A piece that fits is the first that a text is cut into. -/
theorem cut_of_fits {p : Piece} {c : Char} {rest after : List Char} (h : p.Fits after)
    (htext : p.text ++ after = c :: rest) : cut (c :: rest) = p :: cut after := by
  rw [cut, h.read_eq htext]

/-- **The tokenization of a text is unique**: it is what the scan finds. -/
theorem Tokenized.eq_cut {line : Int} {text : List Char} {ts : List Token} {fs : List Fault}
    (h : Tokenized line text ts fs) :
    ts = tokensFrom line (cut text) ∧ fs = faultsFrom line (cut text) := by
  -- Each item is the first piece of the cut, so what is known of the rest goes through.
  induction h with
  | done => simp [cut, tokensFrom, faultsFrom]
  | @blank line c rest _ _ hc _ ih =>
    have hblank : Piece.isBlank c = true := by rcases hc with rfl | rfl | rfl <;> rfl
    have hline : c ≠ '\n' := by rcases hc with rfl | rfl | rfl <;> decide
    have hcut : cut (c :: rest) = .gap [c] :: cut rest := cut_of_fits (.blank hblank) rfl
    rw [hcut]
    simpa [tokensFrom, faultsFrom, Piece.endLine, Piece.text, hline] using ih
  | @lineFeed line rest _ _ _ ih =>
    have hcut : cut ('\n' :: rest) = .gap ['\n'] :: cut rest := cut_of_fits (.blank rfl) rfl
    rw [hcut]
    simpa [tokensFrom, faultsFrom, Piece.endLine, Piece.text] using ih
  | @comment line text rest _ _ hcomment hend _ ih =>
    have hcut : cut (text ++ rest) = .gap text :: cut rest := by
      have hfits : (Piece.gap text).Fits rest := .comment hcomment hend
      obtain ⟨body, rfl, -⟩ := hcomment
      exact cut_of_fits hfits rfl
    rw [hcut]
    simpa [tokensFrom, faultsFrom, Piece.endLine, Piece.text, count_comment hcomment] using ih
  | @lexeme line text rest kind value _ _ hlex hlong _ ih =>
    obtain ⟨c, w, rfl, -, rfl⟩ := hlex.read_self
    have hcut : cut (c :: w ++ rest) = .token kind (c :: w) :: cut rest :=
      cut_of_fits (.token hlex hlong) rfl
    rw [hcut]
    simpa [tokensFrom, faultsFrom, Piece.endLine, Piece.text] using ih
  | @stray line c rest _ _ hc _ ih =>
    have hline : c ≠ '\n' := by
      rintro rfl
      exact absurd hc.1 (by decide)
    have hcut : cut (c :: rest) = .stray c :: cut rest := cut_of_fits (.stray hc) rfl
    rw [hcut]
    simpa [tokensFrom, faultsFrom, Piece.endLine, Piece.text, hline] using ih
  | @unterminated line body hbody =>
    have hcut : cut ('"' :: body) = [.unterminated ('"' :: body)] := by
      rw [cut_of_fits (Piece.Fits.unterminated hbody) (List.append_nil _), cut]
    rw [hcut]
    simp [tokensFrom, faultsFrom, Piece.endLine, Piece.text]

/-- The longest match before a text is the longest before less of it. -/
theorem IsLongest.of_prefix {text before rest : List Char} (h : IsLongest text (text ++ rest))
    (hbefore : before <+: rest) : IsLongest text (text ++ before) := fun other hother hlex =>
  h other (hother.trans ((List.prefix_append_right_inj text).2 hbefore)) hlex

/-- **Every token but the end token is a lexeme.** -/
theorem Tokenized.lexeme_of_mem {line : Int} {text : List Char} {ts : List Token}
    {fs : List Fault} (h : Tokenized line text ts fs) :
    ∀ t ∈ ts, t.kind ≠ .eof → Lexeme t.lexeme.toList t.kind t.literal := by
  induction h with
  | done | unterminated =>
    rintro t ht heof
    obtain rfl := List.mem_singleton.1 ht
    exact absurd rfl heof
  | blank _ _ ih | lineFeed _ ih | comment _ _ _ ih | stray _ _ ih => exact ih
  | lexeme hlex _ _ ih =>
    refine List.forall_mem_cons.2 ⟨fun _ => ?_, ih⟩
    rwa [String.toList_ofList]

/-- **Where a token begins**: its lexeme follows a text that has the tokens
before it, on the line on which that text ends. -/
theorem Tokenized.exists_before {line : Int} {text : List Char} {ts : List Token}
    {fs : List Fault} (h : Tokenized line text ts fs) (hfs : fs = []) {us vs : List Token}
    {t : Token} (hts : ts = us ++ t :: vs) (ht : t.kind ≠ .eof) :
    ∃ before after, text = before ++ t.lexeme.toList ++ after ∧
      Lexeme t.lexeme.toList t.kind t.literal ∧
      Tokenized line before (us ++ [Token.eof (line + before.count '\n')]) [] ∧
      t.line = line + before.count '\n' + t.lexeme.toList.count '\n' := by
  induction h generalizing us with
  | done =>
    have hmem : t ∈ us ++ t :: vs := by simp
    rw [← hts, List.mem_singleton] at hmem
    exact absurd (congrArg Token.kind hmem) ht
  | @blank line c rest ts fs hc _ ih =>
    obtain ⟨before, after, rfl, hself, hbefore, hline⟩ := ih hfs hts
    have hcount : (c :: before).count '\n' = before.count '\n' := by
      rcases hc with rfl | rfl | rfl <;> simp
    exact ⟨c :: before, after, rfl, hself, by rw [hcount]; exact .blank hc hbefore,
      by rw [hcount]; exact hline⟩
  | @lineFeed line rest ts fs _ ih =>
    obtain ⟨before, after, rfl, hself, hbefore, hline⟩ := ih hfs hts
    have hcount : line + ('\n' :: before).count '\n' = line + 1 + before.count '\n' := by
      rw [List.count_cons_self]
      omega
    exact ⟨'\n' :: before, after, rfl, hself, by rw [hcount]; exact .lineFeed hbefore,
      by rw [hcount]; exact hline⟩
  | @comment line text rest ts fs hcomment hend _ ih =>
    obtain ⟨before, after, rfl, hself, hbefore, hline⟩ := ih hfs hts
    have hcount : (text ++ before).count '\n' = before.count '\n' := by
      rw [List.count_append]
      obtain ⟨body, rfl, hbody⟩ := hcomment
      simp [List.count_eq_zero.2 hbody]
    refine ⟨text ++ before, after, by simp, hself, ?_, by rw [hcount]; exact hline⟩
    rw [hcount]
    refine .comment hcomment (fun c hc => hend c ?_) hbefore
    rcases before with _ | ⟨d, before⟩
    · exact absurd hc (by simp)
    · exact hc
  | @lexeme line text rest kind value ts fs hlex hlong _ ih =>
    rcases us with _ | ⟨u, us⟩
    · obtain ⟨rfl, -⟩ := List.cons.inj hts
      exact ⟨[], rest, by simp, by simpa using hlex, by simpa using Tokenized.done, by simp⟩
    · obtain ⟨rfl, htail : ts = us ++ t :: vs⟩ := List.cons.inj hts
      obtain ⟨before, after, rfl, hself, hbefore, hline⟩ := ih hfs htail
      have hcount : line + (text ++ before).count '\n'
          = line + text.count '\n' + before.count '\n' := by
        rw [List.count_append]
        omega
      refine ⟨text ++ before, after, by simp, hself, ?_, by rw [hcount]; exact hline⟩
      rw [hcount]
      exact .lexeme hlex (hlong.of_prefix ⟨t.lexeme.toList ++ after, by simp⟩) hbefore
  | stray | unterminated => simp at hfs

/-- A strict scan has a result if it has no faults. -/
theorem Scan.result_eq_ok_iff {s : Scan} {ts : List Token} :
    s.result false = .ok ts ↔ s.faults = [] ∧ s.tokens = ts := by
  rw [Scan.result, show s.errors false = s.faults from rfl]
  split
  · next hfaults => simp [hfaults]
  · next hfaults => simpa using fun hnone => absurd hnone hfaults

/-- **A strict scan is longest-match tokenization**: the tokens it collects
and the errors it reports are those of the source, and no others. -/
theorem tokenized_iff_scan (source : String) (ts : List Token) (fs : List Fault) :
    Tokenized 1 source.toList ts fs ↔
      (scan source).tokens = ts ∧ (scan source).errors false = fs := by
  constructor
  · intro h
    obtain ⟨rfl, rfl⟩ := h.eq_cut
    exact ⟨rfl, rfl⟩
  · rintro ⟨rfl, rfl⟩
    exact tokenized_cut 1 source.toList

end Lox.Source
