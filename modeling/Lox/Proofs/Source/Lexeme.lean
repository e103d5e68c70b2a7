import Lox.Proofs.Source.Numeral
import Lox.Source.Scan
/-!
# Lexical classes

Which texts are lexemes, of which kind and with which literal, said
without the readers. `Lexeme.read_append` is how the two meet: before any
text, a lexeme is read whole, so what is read is at least as long, and a
lexeme on its own is read as itself.
-/

namespace Lox.Source

/-- **The lexical classes**: the texts that are lexemes, with the kind and
the literal of the token that each makes. -/
inductive Lexeme : List Char → Kind → Json → Prop
  /-- A sign or operator. -/
  | sign {text : List Char} {kind : Kind} :
      (String.ofList text, kind) ∈ Kind.signs → Lexeme text kind .null
  /-- A word that is no name. -/
  | keyword {text : List Char} {kind : Kind} :
      (String.ofList text, kind) ∈ Kind.keywords → Lexeme text kind .null
  /-- A letter and word characters after it, unless that is a keyword. -/
  | identifier {c : Char} {rest : List Char} :
      Unicode.isLetter c = true → (∀ d ∈ rest, Unicode.isWordChar d = true) →
      (∀ kind, (String.ofList (c :: rest), kind) ∉ Kind.keywords) →
      Lexeme (c :: rest) .identifier (.str (String.ofList (c :: rest)))
  /-- Two quotes and no quote between them. -/
  | string {body : List Char} :
      '"' ∉ body → Lexeme ('"' :: body ++ ['"']) .string (.str (String.ofList body))
  /-- A numeral, with the double that it is read as. -/
  | number {text : List Char} {x : Float} :
      IsNumeral text → Decimal.readFloat? (String.ofList text) = some x →
      Lexeme text .number (.float x)

/-- Two slashes and what follows them on their line. -/
def IsComment (text : List Char) : Prop :=
  ∃ body, text = '/' :: '/' :: body ∧ '\n' ∉ body

/-- **The longest match** at the start of a text: no lexeme and no comment
that the text starts with is longer. -/
def IsLongest (lexeme text : List Char) : Prop :=
  ∀ other, other <+: text → (∃ kind literal, Lexeme other kind literal) ∨ IsComment other →
    other.length ≤ lexeme.length

/-- A digit is a decimal digit. -/
theorem isDecimalDigit_of_isDigit {c : Char} (h : c.isDigit = true) :
    Unicode.isDecimalDigit c = true := by
  obtain ⟨hlow, hhigh⟩ := Decimal.bounds_of_isDigit h
  rw [Unicode.isDecimalDigit, Unicode.decimalDigits, Unicode.Ranges.contains,
    if_neg (by omega), if_pos (by omega)]

/-- A digit may stand inside a word. -/
theorem isWordChar_of_isDigit {c : Char} (h : c.isDigit = true) : Unicode.isWordChar c = true := by
  simp [Unicode.isWordChar, Unicode.isAlphanumeric, isDecimalDigit_of_isDigit h]

/-- A word is a keyword, or it is none and an identifier. -/
theorem ofWord_cases (word : String) :
    (word, Kind.ofWord word) ∈ Kind.keywords ∨
      Kind.ofWord word = .identifier ∧ ∀ kind, (word, kind) ∉ Kind.keywords := by
  rcases hlookup : Kind.keywords.lookup word with _ | kind
  · rw [Kind.ofWord, hlookup]
    refine .inr ⟨rfl, fun kind hmem => ?_⟩
    have := List.lookup_eq_none_iff.1 hlookup _ hmem
    simp at this
  · obtain ⟨l₁, l₂, heq, -⟩ := List.lookup_eq_some_iff.1 hlookup
    rw [Kind.ofWord, hlookup, heq]
    exact .inl (by simp)

namespace Piece

/-! ## What the first character decides -/

/-- The characters that begin anything but a number or a word. -/
def marks : List Char :=
  ['(', ')', '\x7b', '\x7d', ',', '.', '-', '+', ';', '*', '!', '=', '<', '>', '/', ' ', '\r',
   '\t', '\n', '"']

/-- A character of a class without marks begins a number, a word, or
nothing. -/
theorem read_of_class {p : Char → Bool} (hp : marks.any p = false) {c : Char}
    (h : p c = true) (rest : List Char) :
    read c rest = if c.isDigit then readNumber c rest
      else if Unicode.isLetter c then readWord c rest else (stray c, rest) := by
  have hne : ∀ d ∈ marks, c ≠ d := by
    rintro d hd rfl
    exact List.any_eq_false.1 hp c hd h
  have hs : single? c = none := by
    unfold single?
    split <;> first | rfl | exact absurd rfl (hne _ (by decide))
  have he : extensible? c = none := by
    unfold extensible?
    split <;> first | rfl | exact absurd rfl (hne _ (by decide))
  have hblank : isBlank c = false := by
    simp [isBlank, hne ' ' (by decide), hne '\r' (by decide), hne '\t' (by decide),
      hne '\n' (by decide)]
  simp [read, hs, he, hblank, hne '/' (by decide), hne '"' (by decide)]

/-- A digit begins a number. -/
theorem read_of_isDigit {c : Char} (h : c.isDigit = true) (rest : List Char) :
    read c rest = readNumber c rest := by
  rw [read_of_class (p := Char.isDigit) (by decide) h, if_pos h]

/-- No letter is a digit. -/
theorem isDigit_of_isLetter {c : Char} (h : Unicode.isLetter c = true) : c.isDigit = false := by
  by_contra hd
  have hb := Decimal.bounds_of_isDigit (by simpa using hd)
  have hout : Unicode.letters.contains c.toNat = false := by
    rw [Unicode.letters, Unicode.Ranges.contains, if_pos (by omega)]
  rw [Unicode.isLetter, hout] at h
  exact absurd h (by decide)

/-- A letter begins a word. -/
theorem read_of_isLetter {c : Char} (h : Unicode.isLetter c = true) (rest : List Char) :
    read c rest = readWord c rest := by
  rw [read_of_class (p := Unicode.isLetter) (by decide) h, isDigit_of_isLetter h, if_pos h]
  rfl

/-! ## Lexemes before other text -/

/-- A word is read as far as word characters reach. -/
theorem readWord_append {c : Char} {w : List Char} (h : ∀ d ∈ w, Unicode.isWordChar d = true)
    (rest : List Char) :
    (readWord c (w ++ rest)).1.text = c :: w ++ rest.takeWhile Unicode.isWordChar := by
  simp [readWord, text, List.takeWhile_append_of_pos h]

/-- Digits are read as far as they reach, and then perhaps a fraction. -/
theorem readNumber_append_of_isDigit {c : Char} {w : List Char} (h : ∀ d ∈ w, d.isDigit = true)
    (rest : List Char) :
    (readNumber c (w ++ rest)).1.text
      = c :: w ++
        (rest.takeWhile Char.isDigit ++ (splitFraction (rest.dropWhile Char.isDigit)).1) := by
  simp [readNumber, text, List.takeWhile_append_of_pos h, List.dropWhile_append_of_pos h]

/-- A point with digits after it is read with all of them. -/
theorem splitFraction_append_of_isDigits {fraction : List Char} (h : IsDigits fraction)
    (rest : List Char) :
    (splitFraction ('.' :: fraction ++ rest)).1
      = '.' :: fraction ++ rest.takeWhile Char.isDigit := by
  obtain ⟨hne, hall⟩ := h
  obtain _ | ⟨d, f⟩ := fraction
  · exact absurd rfl hne
  · have hd : d.isDigit = true := hall d List.mem_cons_self
    have hf : ∀ e ∈ f, e.isDigit = true := fun e he => hall e (List.mem_cons_of_mem _ he)
    simp [splitFraction, hd, List.takeWhile_append_of_pos hf]

/-- Where a character does not stand, all others differ from it. -/
theorem bne_of_not_mem {c : Char} {text : List Char} (h : c ∉ text) :
    ∀ d ∈ text, (d != c) = true := by
  intro d hd
  simpa using fun heq : d = c => h (heq ▸ hd)

/-- A string is read up to its second quote. -/
theorem readString_append_quote {body : List Char} (h : '"' ∉ body) (rest : List Char) :
    readString (body ++ '"' :: rest) = (token .string ('"' :: body ++ ['"']), rest) := by
  have hbody := bne_of_not_mem h
  simp [readString, List.takeWhile_append_of_pos hbody, List.dropWhile_append_of_pos hbody]

/-- A numeral is read whole, whatever follows it. -/
theorem readNumber_of_isNumeral {c : Char} {w : List Char} (h : IsNumeral (c :: w))
    (rest : List Char) : ∃ more, (readNumber c (w ++ rest)).1.text = c :: w ++ more := by
  rcases h with ⟨-, hall⟩ | ⟨whole, fraction, ⟨hne, hall⟩, hf, heq⟩
  · exact ⟨_, readNumber_append_of_isDigit (fun d hd => hall d (List.mem_cons_of_mem _ hd)) rest⟩
  · obtain _ | ⟨d, whole⟩ := whole
    · exact absurd rfl hne
    · obtain ⟨rfl, htail : w = whole ++ '.' :: fraction⟩ := List.cons.inj heq
      subst htail
      have hw : ∀ e ∈ whole, e.isDigit = true := fun e he => hall e (List.mem_cons_of_mem _ he)
      have htake : ('.' :: fraction ++ rest).takeWhile Char.isDigit = [] := rfl
      have hdrop : ('.' :: fraction ++ rest).dropWhile Char.isDigit = '.' :: fraction ++ rest := rfl
      refine ⟨rest.takeWhile Char.isDigit, ?_⟩
      rw [List.append_assoc, readNumber_append_of_isDigit hw, htake, hdrop,
        splitFraction_append_of_isDigits hf]
      simp

/-- A quote that no second one follows takes all that is left. -/
theorem readString_of_not_mem {body : List Char} (h : '"' ∉ body) :
    readString body = (unterminated ('"' :: body), []) := by
  have hbody := bne_of_not_mem h
  simp [readString, List.takeWhile_eq_self_iff.2 hbody, List.dropWhile_eq_nil_iff.2 hbody]

end Piece

/-- Keywords are made of letters. -/
theorem isLetter_of_mem_keywords :
    ∀ p ∈ Kind.keywords, p.1.toList ≠ [] ∧ ∀ c ∈ p.1.toList, Unicode.isLetter c = true := by
  have hall : ∀ p ∈ Kind.keywords,
      p.1.toList ≠ [] ∧ p.1.toList.all Unicode.isLetter = true := by decide
  simpa only [List.all_eq_true] using hall

/-- Signs are read whole. -/
theorem length_le_read_sign : ∀ p ∈ Kind.signs, ∃ c w, p.1.toList = c :: w ∧
    ∀ rest, p.1.toList.length ≤ (Piece.read c (w ++ rest)).1.text.length := by
  simp only [Kind.signs, List.forall_mem_cons]
  and_intros
  all_goals first
    | exact ⟨_, [], rfl, fun rest => List.length_pos_iff.2 (Piece.text_read_ne_nil _ rest)⟩
    | exact ⟨_, ['='], rfl, fun _ => Nat.le_refl 2⟩
    | exact fun p hp => absurd hp List.not_mem_nil

/-- **Before any text a lexeme is read whole**, or as part of something
longer. -/
theorem Lexeme.read_append {text : List Char} {kind : Kind} {literal : Json}
    (h : Lexeme text kind literal) : ∃ c w, text = c :: w ∧
      ∀ rest, text.length ≤ (Piece.read c (w ++ rest)).1.text.length := by
  have word : ∀ {c : Char} {w : List Char}, Unicode.isLetter c = true →
      (∀ d ∈ w, Unicode.isWordChar d = true) → ∀ rest,
      (c :: w).length ≤ (Piece.read c (w ++ rest)).1.text.length := by
    intro c w hc hw rest
    rw [Piece.read_of_isLetter hc, Piece.readWord_append hw]
    simp
  cases h with
  | sign h =>
    obtain ⟨c, w, htext, hread⟩ := length_le_read_sign _ h
    rw [String.toList_ofList] at htext hread
    exact ⟨c, w, htext, hread⟩
  | keyword h =>
    obtain ⟨hne, hall⟩ := isLetter_of_mem_keywords _ h
    rw [String.toList_ofList] at hne hall
    obtain ⟨c, w, rfl⟩ := List.exists_cons_of_ne_nil hne
    exact ⟨c, w, rfl, word (hall c List.mem_cons_self) fun d hd =>
      Unicode.isWordChar_of_isLetter (hall d (List.mem_cons_of_mem _ hd))⟩
  | @identifier c rest hc hw => exact ⟨c, rest, rfl, word hc hw⟩
  | @string body h =>
    refine ⟨'"', body ++ ['"'], rfl, fun rest => ?_⟩
    rw [List.append_assoc, List.singleton_append, show Piece.read '"' (body ++ '"' :: rest)
      = Piece.readString (body ++ '"' :: rest) from rfl, Piece.readString_append_quote h]
    exact Nat.le_refl _
  | number h =>
    obtain ⟨c, w, rfl, hc⟩ := h.exists_cons
    refine ⟨c, w, rfl, fun rest => ?_⟩
    obtain ⟨more, hmore⟩ := Piece.readNumber_of_isNumeral h rest
    rw [Piece.read_of_isDigit hc, hmore, List.length_append]
    exact Nat.le_add_right _ _

/-- Signs and keywords are read as themselves, without a literal. -/
theorem read_self_of_mem : ∀ p ∈ Kind.signs ++ Kind.keywords, ∃ c w, p.1.toList = c :: w ∧
    Piece.read c w = (.token p.2 p.1.toList, []) ∧ literal p.2 p.1.toList = .null := by
  simp only [Kind.signs, Kind.keywords, List.cons_append, List.nil_append, List.forall_mem_cons]
  and_intros
  all_goals first
    | exact ⟨_, _, rfl, rfl, rfl⟩
    | exact fun p hp => absurd hp List.not_mem_nil

/-- **On its own a lexeme is read as itself**, so it is of one kind and has
one literal. -/
theorem Lexeme.read_self {text : List Char} {kind : Kind} {value : Json}
    (h : Lexeme text kind value) : ∃ c w, text = c :: w ∧
      Piece.read c w = (.token kind text, []) ∧ literal kind text = value := by
  cases h with
  | sign h =>
    simpa only [String.toList_ofList] using read_self_of_mem _ (List.mem_append_left _ h)
  | keyword h =>
    simpa only [String.toList_ofList] using read_self_of_mem _ (List.mem_append_right _ h)
  | @identifier c w hc hw hkey =>
    have hkind : Kind.ofWord (String.ofList (c :: w)) = .identifier := by
      rw [Kind.ofWord, List.lookup_eq_none_iff.2]
      · rfl
      · rintro ⟨word, kind⟩ hp
        simp only [bne_iff_ne, ne_eq]
        rintro rfl
        exact hkey kind hp
    have htake : w.takeWhile Unicode.isWordChar = w := List.takeWhile_eq_self_iff.2 hw
    have hdrop : w.dropWhile Unicode.isWordChar = [] := List.dropWhile_eq_nil_iff.2 hw
    refine ⟨c, w, rfl, ?_, rfl⟩
    rw [Piece.read_of_isLetter hc, Piece.readWord, htake, hdrop, hkind]
  | @string body h =>
    refine ⟨'"', body ++ ['"'], rfl, Piece.readString_append_quote h [], ?_⟩
    simp [literal]
  | @number text x h hx =>
    obtain ⟨c, w, rfl, hc⟩ := h.exists_cons
    refine ⟨c, w, rfl, ?_, ?_⟩
    · -- What is read holds the numeral, and nothing else is there to be read.
      obtain ⟨more, hmore⟩ := Piece.readNumber_of_isNumeral h []
      rw [List.append_nil] at hmore
      have hall := Piece.readNumber_append c w
      rw [hmore, List.append_assoc, List.append_right_eq_self, List.append_eq_nil_iff] at hall
      rw [hall.1, List.append_nil] at hmore
      rw [Piece.read_of_isDigit hc, ← hmore, ← hall.2]
      rfl
    · rw [literal, ← Option.some.inj ((Decimal.readFloat?_of_isNumeral h).symm.trans hx)]

/-- No lexeme makes an end token. -/
theorem Lexeme.ne_eof {text : List Char} {kind : Kind} {value : Json}
    (h : Lexeme text kind value) : kind ≠ .eof := by
  have hsign : ∀ p ∈ Kind.signs, p.2 ≠ .eof := by decide
  have hword : ∀ p ∈ Kind.keywords, p.2 ≠ .eof := by decide
  cases h with
  | sign hmem => exact hsign _ hmem
  | keyword hmem => exact hword _ hmem
  | identifier | string | number => decide

/-- A lexeme of the kind of a sign is that sign. -/
theorem mem_signs_of_lexeme {kind : Kind} {w : List Char} {value : Json}
    (h : Lexeme w kind value) (hkind : kind ∈ Kind.signs.map Prod.snd) :
    (String.ofList w, kind) ∈ Kind.signs := by
  have hword : ∀ p ∈ Kind.keywords, p.2 ∉ Kind.signs.map Prod.snd := by decide
  cases h with
  | sign hmem => exact hmem
  | keyword hmem => exact absurd hkind (hword _ hmem)
  | identifier | string | number => exact absurd hkind (by decide)

/-- Lexemes of the same text are of one kind and have one literal. -/
theorem Lexeme.unique {text : List Char} {k l : Kind} {v w : Json} (h : Lexeme text k v)
    (h' : Lexeme text l w) : k = l ∧ v = w := by
  obtain ⟨c, rest, rfl, hread, rfl⟩ := h.read_self
  obtain ⟨d, rest', heq, hread', rfl⟩ := h'.read_self
  obtain ⟨rfl, rfl⟩ := List.cons.inj heq
  obtain rfl : k = l := by simpa [hread] using hread'
  exact ⟨rfl, rfl⟩

end Lox.Source
