import Lox.Grammar.Terminal
import Lox.Proofs.Source.Tokenized
import Lox.Proofs.Unicode.Tables
/-!
# Terminals and tokens

What the terminals of the grammar take where the scanner reads a token.
Most take the whole token or nothing, so the two ways of cutting a text
agree; `matchLength_of_read` is this fact. Two terminals take the first
character of a longer token, and a keyword may be the beginning of a name.
-/

namespace Lox.Grammar

open Source

namespace Terminal

/-- The kinds of the tokens that a terminal takes whole. -/
def reads : Terminal → Kind → Bool
  | identifier, k => k == .identifier
  | number, k => k == .number
  | string, k => k == .string
  | kwFalse, k => k == .kwFalse
  | kwPrint, k => k == .kwPrint
  | kwTrue, k => k == .kwTrue
  | kwNil, k => k == .kwNil
  | kwVar, k => k == .kwVar
  | comparisonOp, k => k == .greater || k == .greaterEqual || k == .less || k == .lessEqual
  | equalityOp, k => k == .bangEqual || k == .equalEqual
  | factorOp, k => k == .slash || k == .star
  | termOp, k => k == .minus || k == .plus
  | unaryOp, k => k == .bang || k == .minus
  | equal, k => k == .equal
  | semicolon, k => k == .semicolon
  | leftParen, k => k == .leftParen
  | rightParen, k => k == .rightParen

/-- The kinds of the tokens of which a terminal takes the first character
alone. -/
def splits : Terminal → Kind → Bool
  | unaryOp, k => k == .bangEqual
  | equal, k => k == .equalEqual
  | _, _ => false

/-- Whether a terminal is a word that is no name. -/
def isKeyword : Terminal → Bool
  | kwFalse | kwPrint | kwTrue | kwNil | kwVar => true
  | _ => false

/-- How many characters a terminal takes of a token. -/
def takes (t : Terminal) (k : Kind) (w : List Char) : Nat :=
  if t.reads k then w.length else if t.splits k then 1 else 0

end Terminal

/-- A terminal that takes a name whole is no keyword. -/
theorem isKeyword_of_reads {t : Terminal} {kind : Kind} (h : t.reads kind = true)
    (hkind : kind = .identifier) : t.isKeyword = false := by
  subst hkind
  cases t <;> first | rfl | exact absurd h (by decide)

/-- A terminal that splits a token does not take it whole, and is no
keyword. -/
theorem of_splits {t : Terminal} {kind : Kind} (h : t.splits kind = true) :
    t.reads kind = false ∧ t.isKeyword = false := by
  cases t with
  | unaryOp | equal =>
    obtain rfl := eq_of_beq h
    decide
  | _ => exact absurd h Bool.false_ne_true

/-! ## Layout -/

/-- **Layout is what the scanner reads as gaps**: skipping it skips no
token and no fault, and a token or a fault is what stands after it. -/
theorem cut_skipLayout (line : Int) (text : List Char) :
    tokensFrom line (cut text)
        = tokensFrom (skipLayout line text).1 (cut (skipLayout line text).2) ∧
      faultsFrom line (cut text)
        = faultsFrom (skipLayout line text).1 (cut (skipLayout line text).2) ∧
      ∀ c rest, (skipLayout line text).2 = c :: rest →
        ∀ gap, (Piece.read c rest).1 ≠ .gap gap := by
  fun_induction skipLayout line text with
  | case1 line => exact ⟨rfl, rfl, by simp⟩
  | case2 line rest ih =>
    have hcut : cut ('/' :: '/' :: rest)
        = .gap ('/' :: '/' :: rest.takeWhile (· != '\n')) :: cut (rest.dropWhile (· != '\n')) := by
      rw [cut]
      rfl
    have hline : ('/' :: '/' :: rest.takeWhile (· != '\n')).count '\n' = 0 :=
      count_comment ⟨_, rfl, Piece.not_mem_takeWhile_bne '\n' rest⟩
    rw [hcut]
    simpa [tokensFrom, faultsFrom, Piece.endLine, Piece.text, hline] using ih
  | case3 line c rest _ hc ih =>
    obtain rfl : c = '\n' := by simpa using hc
    have hcut : cut ('\n' :: rest) = .gap ['\n'] :: cut rest := by
      rw [cut]
      rfl
    rw [hcut]
    simpa [tokensFrom, faultsFrom, Piece.endLine, Piece.text] using ih
  | case4 line c rest _ hline hc ih =>
    have hblank : Piece.isBlank c = true := by
      simp only [Bool.or_eq_true, beq_iff_eq] at hc
      rcases hc with (rfl | rfl) | rfl <;> rfl
    have hcut : cut (c :: rest) = .gap [c] :: cut rest := by
      rw [cut, Piece.read_of_isBlank hblank]
    have hline : c ≠ '\n' := by simpa using hline
    rw [hcut]
    simpa [tokensFrom, faultsFrom, Piece.endLine, Piece.text, hline] using ih
  | case5 line c rest hslash hline hc =>
    refine ⟨rfl, rfl, ?_⟩
    intro d tail heq gap hgap
    obtain ⟨rfl, rfl⟩ := List.cons.inj heq
    -- What is read as a gap starts with a blank or with two slashes, and neither stands here.
    have happ := Piece.read_append c rest
    have hfits := Piece.fits_read c rest
    rw [hgap] at happ hfits
    cases hfits with
    | blank hblank =>
      obtain ⟨rfl, -⟩ := List.cons.inj happ
      simp only [Piece.isBlank, Bool.or_eq_true, beq_iff_eq] at hblank
      simp only [Bool.or_eq_true, beq_iff_eq] at hline hc
      rcases hblank with ((h | h) | h) | h <;> simp_all
    | comment hcomment =>
      obtain ⟨body, rfl, -⟩ := hcomment
      obtain ⟨rfl, hrest⟩ := List.cons.inj happ
      exact hslash _ rfl hrest.symm

/-! ## What a terminal takes of a token -/

namespace Terminal

/-- The texts that a terminal stands for, if it stands for fixed ones. -/
def words : Terminal → List String
  | kwFalse => ["false"]
  | kwPrint => ["print"]
  | kwTrue => ["true"]
  | kwNil => ["nil"]
  | kwVar => ["var"]
  | comparisonOp => [">=", "<=", ">", "<"]
  | equalityOp => ["==", "!="]
  | factorOp => ["*", "/"]
  | termOp => ["+", "-"]
  | unaryOp => ["!", "-"]
  | equal => ["="]
  | semicolon => [";"]
  | leftParen => ["("]
  | rightParen => [")"]
  | _ => []

/-- A terminal of fixed texts takes the first of them that is there. -/
theorem matchLength_eq_matchFirst {t : Terminal} (ht : t.words ≠ []) (text : List Char) :
    t.matchLength text = matchFirst t.words text := by
  have hone : ∀ word, matchText word text = matchFirst [word] text := by
    intro word
    by_cases h : matchText word text = 0 <;> simp [matchFirst, h]
  cases t with
  | identifier | number | string => exact absurd rfl ht
  | comparisonOp | equalityOp | factorOp | termOp | unaryOp => rfl
  | kwFalse | kwPrint | kwTrue | kwNil | kwVar | equal | semicolon | leftParen | rightParen =>
    exact hone _

/-- Fixed texts are not there where a character of a class stands that none
of them starts with. -/
theorem matchLength_of_class {t : Terminal} (ht : t.words ≠ []) {p : Char → Bool}
    (hp : ∀ word ∈ t.words, word.toList.head?.any p = false) {c : Char} (hc : p c = true)
    (rest : List Char) : t.matchLength (c :: rest) = 0 := by
  have hne : ∀ word ∈ t.words, word.toList ≠ [] := by cases t <;> decide
  have hnone : ∀ word ∈ t.words, matchText word (c :: rest) = 0 := by
    intro word hword
    rcases htext : word.toList with _ | ⟨d, w⟩
    · exact absurd htext (hne word hword)
    · have hd : d ≠ c := by
        rintro rfl
        have := hp word hword
        rw [htext, List.head?_cons, Option.any_some, hc] at this
        exact absurd this (by decide)
      rw [matchText, htext, List.isPrefixOf_cons_cons]
      simp [hd]
  rw [matchLength_eq_matchFirst ht, matchFirst, List.find?_eq_none.2 ?_, Option.getD_none]
  intro n hn
  obtain ⟨word, hword, rfl⟩ := List.mem_map.1 hn
  simp [hnone word hword]

end Terminal

/-- No keyword begins another one. -/
theorem eq_of_keyword_isPrefix : ∀ p ∈ Kind.keywords, ∀ q ∈ Kind.keywords,
    p.1.toList <+: q.1.toList → p = q := by
  decide

/-- Keywords of one kind are the same. -/
theorem eq_of_keyword_kind : ∀ p ∈ Kind.keywords, ∀ q ∈ Kind.keywords, p.2 = q.2 → p = q := by
  decide

/-- A keyword is there where it is read, and where another one is read it
is not. -/
theorem matchText_of_mem_keywords {word : String} {k kind : Kind} {w : List Char}
    (hword : (word, k) ∈ Kind.keywords) (hw : (String.ofList w, kind) ∈ Kind.keywords)
    (after : List Char) : matchText word (w ++ after) = if kind = k then w.length else 0 := by
  by_cases hkind : kind = k
  · have heq := congrArg Prod.fst (eq_of_keyword_kind _ hword _ hw hkind.symm)
    have htext : word.toList = w := by simpa using congrArg String.toList heq
    have hprefix : w.isPrefixOf (w ++ after) = true :=
      List.isPrefixOf_iff_prefix.2 (List.prefix_append w after)
    rw [matchText, htext, if_pos hprefix, if_pos hkind]
  · have hprefix : ¬ word.toList <+: w ++ after := by
      intro h
      -- Of two beginnings of one text one begins the other, and no keyword begins another.
      rcases List.prefix_or_prefix_of_prefix h (List.prefix_append w after) with h | h
      · have heq := eq_of_keyword_isPrefix _ hword _ hw (by simpa using h)
        exact hkind (congrArg Prod.snd heq).symm
      · have heq := eq_of_keyword_isPrefix _ hw _ hword (by simpa using h)
        exact hkind (congrArg Prod.snd heq)
    rw [matchText, if_neg (by simpa [List.isPrefixOf_iff_prefix] using hprefix), if_neg hkind]

/-- A keyword terminal takes its own keyword, and nothing of another. -/
theorem matchLength_of_mem_keywords {t : Terminal} (ht : t.isKeyword = true) {kind : Kind}
    {w : List Char} (hw : (String.ofList w, kind) ∈ Kind.keywords) (after : List Char) :
    t.matchLength (w ++ after) = t.takes kind w := by
  have key : ∀ word k, (word, k) ∈ Kind.keywords →
      t.matchLength (w ++ after) = matchText word (w ++ after) →
      (∀ kind, t.reads kind = (kind == k)) → (∀ kind, t.splits kind = false) →
      t.matchLength (w ++ after) = t.takes kind w := by
    intro word k hword hmatch hreads hsplits
    rw [hmatch, matchText_of_mem_keywords hword hw after, Terminal.takes, hreads, hsplits]
    simp
  cases t with
  | kwFalse => exact key "false" .kwFalse (by decide) rfl (fun _ => rfl) fun _ => rfl
  | kwPrint => exact key "print" .kwPrint (by decide) rfl (fun _ => rfl) fun _ => rfl
  | kwTrue => exact key "true" .kwTrue (by decide) rfl (fun _ => rfl) fun _ => rfl
  | kwNil => exact key "nil" .kwNil (by decide) rfl (fun _ => rfl) fun _ => rfl
  | kwVar => exact key "var" .kwVar (by decide) rfl (fun _ => rfl) fun _ => rfl
  | _ => exact absurd ht (by decide)

/-- Another terminal takes nothing of a word. -/
theorem takes_of_word {t : Terminal} (ht : t.isKeyword = false) (hname : t ≠ .identifier)
    {kind : Kind} {w : List Char}
    (hkind : kind = .identifier ∨ (String.ofList w, kind) ∈ Kind.keywords) :
    t.takes kind w = 0 := by
  have hnone : t.reads kind = false ∧ t.splits kind = false := by
    rcases hkind with rfl | hmem
    · cases t <;> simp_all [Terminal.reads, Terminal.splits, Terminal.isKeyword]
    · have key : ∀ p ∈ Kind.keywords, t.reads p.2 = false ∧ t.splits p.2 = false := by
        cases t <;> first | decide | exact absurd rfl hname | exact absurd ht (by decide)
      exact key _ hmem
  simp [Terminal.takes, hnone]

/-- A number is taken as it is read. -/
theorem matchNumber_of_isDigit {c : Char} (h : c.isDigit = true) (rest : List Char) :
    matchNumber (c :: rest) = (Piece.readNumber c rest).1.text.length := by
  have htake : (c :: rest).takeWhile Char.isDigit = c :: rest.takeWhile Char.isDigit :=
    List.takeWhile_cons_of_pos h
  have hdrop : rest.drop (rest.takeWhile Char.isDigit).length = rest.dropWhile Char.isDigit := by
    have happ : rest.takeWhile Char.isDigit ++ rest.dropWhile Char.isDigit = rest :=
      List.takeWhile_append_dropWhile
    calc rest.drop (rest.takeWhile Char.isDigit).length
        = (rest.takeWhile Char.isDigit ++ rest.dropWhile Char.isDigit).drop
            (rest.takeWhile Char.isDigit).length := by rw [happ]
      _ = rest.dropWhile Char.isDigit := List.drop_left
  rw [matchNumber, htake]
  simp only [List.length_cons, List.drop_succ_cons, hdrop, Nat.add_one_ne_zero, if_false,
    Piece.readNumber, Piece.text]
  generalize rest.dropWhile Char.isDigit = left
  split
  · next tail =>
    -- A point counts with a digit after it.
    rcases tail with _ | ⟨d, tail⟩
    · simp [Piece.splitFraction]
    · by_cases hd : d.isDigit = true
      · simp [Piece.splitFraction, hd]
        omega
      · simp [Piece.splitFraction, hd]
  · next hnone =>
    unfold Piece.splitFraction
    split
    · next d tail => exact absurd rfl (hnone (d :: tail))
    · simp

/-- A letter starts a name. -/
theorem startsName_of_isLetter {c : Char} (h : Unicode.isLetter c = true) :
    startsName c = true := by
  have hdecimal := Unicode.isDecimalDigit_of_isLetter h
  have hline : c ≠ '_' := by
    rintro rfl
    exact absurd h (by decide)
  simp [startsName, Unicode.isWordChar_of_isLetter h, hdecimal, hline]

/-- A digit starts no name. -/
theorem startsName_of_isDigit {c : Char} (h : c.isDigit = true) : startsName c = false := by
  simp [startsName, isDecimalDigit_of_isDigit h]

/-! ## What a terminal takes where a reader reads -/

/-- At a sign that an equals sign may extend. -/
theorem matchLength_of_extensible {c : Char} {alone extended : Kind}
    (hc : Piece.extensible? c = some (alone, extended)) {rest after w : List Char} {kind : Kind}
    (h : Piece.readSign c alone extended rest = (.token kind w, after)) (t : Terminal) :
    t.matchLength (c :: rest) = t.takes kind w := by
  unfold Piece.readSign at h
  split at h
  · next rest =>
    obtain ⟨⟨rfl, rfl⟩, -⟩ : (extended = kind ∧ [c, '='] = w) ∧ rest = after := by simpa using h
    revert hc
    unfold Piece.extensible?
    split <;> rintro ⟨⟩ <;> cases t <;> rfl
  · next hrest =>
    obtain ⟨rfl, rfl⟩ : alone = kind ∧ [c] = w := by simpa using congrArg Prod.fst h
    have hnext : ¬ ['='] <+: rest := by
      rintro ⟨tail, rfl⟩
      exact hrest tail rfl
    revert hc
    unfold Piece.extensible?
    split <;> rintro ⟨⟩ <;> cases t <;>
      first
      | rfl
      | simp [Terminal.matchLength, matchFirst, matchText, hnext]; rfl

/-- At a quote. -/
theorem matchLength_of_quote {rest after w : List Char} {kind : Kind}
    (h : Piece.readString rest = (.token kind w, after)) (t : Terminal) :
    t.matchLength ('"' :: rest) = t.takes kind w := by
  have happ := Piece.readString_append rest
  rw [h] at happ
  simp only [Piece.readString] at h
  split at h
  · simp at h
  · next quote more _ =>
    obtain ⟨⟨rfl, rfl⟩, rfl⟩ :
        (.string = kind ∧ '"' :: rest.takeWhile (· != '"') ++ [quote] = w) ∧ more = after := by
      simpa using h
    have hlength : (rest.takeWhile (· != '"')).length < rest.length := by
      have := congrArg List.length happ
      simp only [Piece.text, List.length_append, List.length_cons, List.length_nil] at this
      omega
    cases t with
    | string => simp [Terminal.matchLength, matchString, hlength, Terminal.takes, Terminal.reads]
    | _ => rfl

/-- At a digit. -/
theorem matchLength_of_isDigit {c : Char} (hc : c.isDigit = true) {rest after w : List Char}
    {kind : Kind} (h : Piece.readNumber c rest = (.token kind w, after)) (t : Terminal) :
    t.matchLength (c :: rest) = t.takes kind w := by
  have hnumber := matchNumber_of_isDigit hc rest
  rw [h] at hnumber
  obtain rfl : .number = kind := by
    simp only [Piece.readNumber, Prod.mk.injEq, Piece.token.injEq] at h
    exact h.1.1
  cases t with
  | identifier =>
    simp [Terminal.matchLength, matchName, startsName_of_isDigit hc, Terminal.takes,
      Terminal.reads, Terminal.splits]
  | number => exact hnumber
  | string =>
    have hquote : c ≠ '"' := by
      rintro rfl
      exact absurd hc (by decide)
    simp [Terminal.matchLength, matchString, hquote, Terminal.takes, Terminal.reads,
      Terminal.splits]
  | _ =>
    exact Terminal.matchLength_of_class (p := Char.isDigit) (by simp [Terminal.words])
      (by decide) hc rest

/-- At a letter. Keywords may begin a name, so where one is read they are
left out. -/
theorem matchLength_of_isLetter {c : Char} (hc : Unicode.isLetter c = true)
    {rest after w : List Char} {kind : Kind}
    (h : Piece.readWord c rest = (.token kind w, after)) (t : Terminal)
    (ht : kind = .identifier → t.isKeyword = false) :
    t.matchLength (c :: rest) = t.takes kind w := by
  have happ : w ++ after = c :: rest :=
    Piece.append_of_read ((Piece.read_of_isLetter hc rest).trans h)
  obtain ⟨hw, hkind⟩ : w = c :: rest.takeWhile Unicode.isWordChar ∧
      kind = Kind.ofWord (String.ofList w) := by
    simp only [Piece.readWord, Prod.mk.injEq, Piece.token.injEq] at h
    obtain ⟨⟨hkind, hw⟩, -⟩ := h
    exact ⟨hw.symm, hw ▸ hkind.symm⟩
  have hword : kind = .identifier ∨ (String.ofList w, kind) ∈ Kind.keywords := by
    rw [hkind]
    rcases ofWord_cases (String.ofList w) with hmem | ⟨hname, -⟩
    · exact .inr hmem
    · exact .inl hname
  -- Only a name and the keyword that is read take anything of a word.
  cases t with
  | identifier =>
    simp [Terminal.matchLength, matchName, startsName_of_isLetter hc, Terminal.takes,
      Terminal.reads, Terminal.splits, ← hw, ← hkind]
  | number =>
    rw [takes_of_word rfl (by decide) hword]
    simp [Terminal.matchLength, matchNumber, Piece.isDigit_of_isLetter hc]
  | string =>
    have hquote : c ≠ '"' := by
      rintro rfl
      exact absurd hc (by decide)
    rw [takes_of_word rfl (by decide) hword]
    simp [Terminal.matchLength, matchString, hquote]
  | kwFalse | kwPrint | kwTrue | kwNil | kwVar =>
    rcases hword with hname | hmem
    · exact absurd (ht hname) (by decide)
    · exact happ ▸ matchLength_of_mem_keywords rfl hmem after
  | _ =>
    rw [takes_of_word rfl (by decide) hword]
    exact Terminal.matchLength_of_class (p := Unicode.isLetter) (by simp [Terminal.words])
      (by decide) hc rest

/-- **A terminal takes a whole token or nothing of it**, but for the first
character of two operators, if it is no keyword before a name. -/
theorem matchLength_of_read {c : Char} {rest after w : List Char} {kind : Kind}
    (hread : Piece.read c rest = (.token kind w, after)) (t : Terminal)
    (ht : kind = .identifier → t.isKeyword = false) :
    t.matchLength (c :: rest) = t.takes kind w := by
  rcases Piece.read_cases c rest with ⟨k, hs, h⟩ | ⟨alone, extended, he, h⟩ | ⟨rfl, h⟩ |
    ⟨-, h⟩ | ⟨rfl, h⟩ | ⟨hdigit, h⟩ | ⟨hletter, h⟩ | ⟨h, -⟩
  · rw [hread] at h
    obtain ⟨⟨rfl, rfl⟩, -⟩ : (kind = k ∧ w = [c]) ∧ after = rest := by simpa using h
    revert hs
    unfold Piece.single?
    split <;> rintro ⟨⟩ <;> cases t <;> rfl
  · exact matchLength_of_extensible he (h.symm.trans hread) t
  · rw [hread] at h
    unfold Piece.readSlash at h
    split at h
    · simp at h
    · obtain ⟨⟨rfl, rfl⟩, -⟩ : (kind = .slash ∧ w = ['/']) ∧ after = rest := by simpa using h
      cases t <;> rfl
  · rw [hread] at h
    simp at h
  · exact matchLength_of_quote (h.symm.trans hread) t
  · exact matchLength_of_isDigit hdigit (h.symm.trans hread) t
  · exact matchLength_of_isLetter hletter (h.symm.trans hread) t ht
  · rw [h rest] at hread
    simp at hread

end Lox.Grammar
