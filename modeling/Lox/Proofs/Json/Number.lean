import Lox.Json.Parser
import Lox.Json.Printer
import Lox.Proofs.Decimal.Text
/-!
# Numbers in JSON text

A number is read as it is written. A double is written as a numeral whose value lies nearest to
it, or as one of three names, and comes back as the same double (`readValue_write`). A whole number
comes back with all of its digits, and those that are refused for too many of them are the same in
both directions (`readValue_intDigits`). Both rest on `readNumber_text`: of any numeral, in any layout, the reader
takes exactly the text, if what follows does not go on with the number.
-/

namespace Lox.Json

open Decimal (Numeral Layout)

/-- Text after which a number does not go on. -/
def EndsNumber (rest : List Char) : Prop :=
  ∀ c ∈ rest.head?, c.isDigit = false ∧ c ≠ '.' ∧ c ≠ 'e' ∧ c ≠ 'E'

/-- Digits are read as far as they reach. -/
theorem span_isDigit {digits rest : List Char} (hdigits : ∀ c ∈ digits, c.isDigit = true)
    (hrest : ∀ c ∈ rest.head?, c.isDigit = false) :
    (digits ++ rest).span Char.isDigit = (digits, rest) := by
  obtain ⟨htake, hdrop⟩ := takeWhile_append_of_head hrest digits
  rw [List.span_eq_takeWhile_dropWhile, htake, hdrop, List.takeWhile_eq_self_iff.2 hdigits,
    List.dropWhile_eq_nil_iff.2 hdigits, List.nil_append]

/-- **An exponent is read as it is written.** -/
theorem readExponent_writeExponent (layout : Layout) (e : Int) {rest : List Char}
    (hrest : ∀ c ∈ rest.head?, c.isDigit = false) :
    readExponent ('e' :: layout.writeExponent e ++ rest) = (some e, rest) := by
  obtain ⟨body, hbody, hvalue, hsplit⟩ := Decimal.exists_digits_writeExponent layout e
  rw [List.cons_append, readExponent]
  simp only [true_or, if_true, hsplit, span_isDigit hbody.2 hrest, hvalue, Decimal.signed_natAbs]

/-- A whole part is read up to what is no digit. -/
theorem readWhole?_append (n : Numeral) {rest : List Char}
    (hrest : ∀ c ∈ rest.head?, c.isDigit = false) :
    readWhole? (n.whole ++ rest) = some (n.whole, rest) := by
  obtain ⟨c, w, hwhole, hc⟩ := IsNumeral.exists_cons (.inl n.isDigits_whole)
  by_cases hzero : c = '0'
  · have hone : n.whole = ['0'] := n.whole_eq_zero (by rw [hwhole, hzero]; rfl)
    rw [hone]
    rfl
  · have hspan := span_isDigit n.isDigits_whole.2 hrest
    rw [hwhole] at hspan ⊢
    rw [readWhole?]
    · rw [hspan]
      rfl
    · rintro tail heq
      exact hzero (List.cons.inj heq).1

/-- Without a point there is no fraction. -/
theorem readFraction_of_head {text : List Char} (h : ∀ c ∈ text.head?, c ≠ '.') :
    readFraction text = ([], text) := by
  unfold readFraction
  split
  · exact absurd rfl (h _ rfl)
  · rfl

/-- Without a mark there is no exponent. -/
theorem readExponent_of_head {text : List Char} (h : ∀ c ∈ text.head?, c ≠ 'e' ∧ c ≠ 'E') :
    readExponent text = (none, text) := by
  unfold readExponent
  split
  · next c rest =>
    have := h c rfl
    rw [if_neg (by simpa using this)]
  · rfl

/-- A sign as it stands before a numeral. -/
def signText (negative : Bool) : List Char :=
  if negative then ['-'] else []

/-- A sign is determined by the text that it stands before. -/
theorem signText_append_inj {negative negative' : Bool} {text text' : List Char}
    (h : text.head? ≠ some '-') (h' : text'.head? ≠ some '-')
    (heq : signText negative ++ text = signText negative' ++ text') :
    negative = negative' ∧ text = text' := by
  cases negative <;> cases negative' <;>
    simp only [signText, Bool.false_eq_true, if_true, if_false, List.nil_append,
      List.singleton_append] at heq
  · exact ⟨rfl, heq⟩
  · exact absurd (congrArg List.head? heq) h
  · exact absurd (congrArg List.head? heq.symm) h'
  · exact ⟨rfl, (List.cons.inj heq).2⟩

/-- What a numeral is read as. -/
def ofNumeral (negative : Bool) (n : Numeral) : Except Flaw Json :=
  if n.fraction = [] ∧ n.scale = none then
    if Decimal.maxDigits < n.whole.length then .error .tooManyDigits
    else
      let value : Int := Decimal.valueOfDigits n.whole
      .ok (.int (if negative then -value else value))
  else .ok (.float (Binary64.signed negative n.decimal.toFloat))

/-- **The parts of a numeral are read off its text**, up to text after which it
does not go on. -/
theorem reads_text (layout : Layout) (n : Numeral) {rest : List Char} (hrest : EndsNumber rest) :
    ∃ pointed scaled, readWhole? (n.text layout ++ rest) = some (n.whole, pointed) ∧
      readFraction pointed = (n.fraction, scaled) ∧ readExponent scaled = (n.scale, rest) := by
  have hscale : readExponent (n.scaleText layout ++ rest) = (n.scale, rest) ∧
      ∀ c ∈ (n.scaleText layout ++ rest).head?, c.isDigit = false ∧ c ≠ '.' := by
    rw [Numeral.scaleText]
    rcases n.scale with _ | e
    · exact ⟨readExponent_of_head fun c hc => (hrest c hc).2.2,
        fun c hc => ⟨(hrest c hc).1, (hrest c hc).2.1⟩⟩
    · refine ⟨readExponent_writeExponent layout e fun c hc => (hrest c hc).1, ?_⟩
      rintro c hc
      obtain rfl := Option.some.inj hc
      decide
  have htext : n.text layout ++ rest
      = n.whole ++ (n.fractionText ++ (n.scaleText layout ++ rest)) := by
    rw [Numeral.text, List.append_assoc, List.append_assoc]
  generalize n.scaleText layout ++ rest = scaled at hscale htext
  obtain ⟨hscale, hscaled⟩ := hscale
  have hfraction : readFraction (n.fractionText ++ scaled) = (n.fraction, scaled) ∧
      ∀ c ∈ (n.fractionText ++ scaled).head?, c.isDigit = false := by
    rw [Numeral.fractionText]
    split_ifs with hnone
    · rw [hnone]
      exact ⟨readFraction_of_head fun c hc => (hscaled c hc).2, fun c hc => (hscaled c hc).1⟩
    · refine ⟨?_, ?_⟩
      · rw [List.cons_append, readFraction,
          span_isDigit n.isDigit_of_mem fun c hc => (hscaled c hc).1]
        simp [hnone]
      · rintro c hc
        obtain rfl := Option.some.inj hc
        rfl
  exact ⟨_, scaled, by rw [htext, readWhole?_append n hfraction.2], hfraction.1, hscale⟩

/-- A numeral starts with a digit. -/
theorem exists_cons_text (layout : Layout) (n : Numeral) :
    ∃ c w, n.text layout = c :: w ∧ c.isDigit = true := by
  obtain ⟨c, w, hwhole, hc⟩ := IsNumeral.exists_cons (.inl n.isDigits_whole)
  exact ⟨c, w ++ (n.fractionText ++ n.scaleText layout), by simp [Numeral.text, hwhole], hc⟩

/-- So it starts with nothing else. -/
theorem head_text_ne (layout : Layout) (n : Numeral) (rest : List Char) {c : Char}
    (hc : c.isDigit = false) : (n.text layout ++ rest).head? ≠ some c := by
  obtain ⟨d, w, htext, hd⟩ := exists_cons_text layout n
  rw [htext]
  rintro ⟨⟩
  cases hd.symm.trans hc

/-- **A numeral is determined by its text**, and so is where it ends. -/
theorem text_append_inj {layout : Layout} {n n' : Numeral} {rest rest' : List Char}
    (hrest : EndsNumber rest) (hrest' : EndsNumber rest')
    (h : n.text layout ++ rest = n'.text layout ++ rest') : n = n' ∧ rest = rest' := by
  obtain ⟨pointed, scaled, hwhole, hfraction, hscale⟩ := reads_text layout n hrest
  obtain ⟨pointed', scaled', hwhole', hfraction', hscale'⟩ := reads_text layout n' hrest'
  rw [h] at hwhole
  obtain ⟨hw, rfl⟩ := Prod.mk.inj (Option.some.inj (hwhole.symm.trans hwhole'))
  obtain ⟨hf, rfl⟩ := Prod.mk.inj (hfraction.symm.trans hfraction')
  obtain ⟨hs, rfl⟩ := Prod.mk.inj (hscale.symm.trans hscale')
  cases n
  cases n'
  cases hw
  cases hf
  cases hs
  exact ⟨rfl, rfl⟩

/-- **A numeral is read up to text after which it does not go on.** -/
theorem readNumber_text (layout : Layout) (n : Numeral) (negative : Bool) {rest : List Char}
    (hrest : EndsNumber rest) :
    readNumber (signText negative ++ (n.text layout ++ rest))
      = (ofNumeral negative n).map (·, rest) := by
  obtain ⟨pointed, scaled, hread, hfraction, hscale⟩ := reads_text layout n hrest
  have hminus := head_text_ne layout n rest (c := '-') rfl
  rw [ofNumeral, Binary64.signed, Numeral.decimal]
  cases negative with
  | false =>
    rw [signText, if_neg Bool.false_ne_true, List.nil_append, readNumber]
    · simp only [hread, orMalformed, bind, Except.bind, hfraction, hscale, Bool.false_eq_true,
        if_false]
      split_ifs <;> rfl
    · exact fun tail heq => hminus (congrArg List.head? heq)
  | true =>
    rw [signText, if_pos rfl, List.singleton_append, readNumber]
    simp only [hread, orMalformed, bind, Except.bind, hfraction, hscale]
    split_ifs <;> rfl

/-! ## What is written -/

/-- A whole number as a numeral. -/
def wholeNumeral (n : Int) : Numeral where
  whole := Nat.toDigits 10 n.natAbs
  fraction := []
  scale := none
  isDigits_whole := Decimal.isDigits_digits ⟨n.natAbs, 0⟩
  isDigit_of_mem := by simp
  whole_eq_zero h := by
    have hzero : n.natAbs = 0 := @Decimal.coefficient_of_head ⟨n.natAbs, 0⟩ h
    rw [hzero, Nat.toDigits_zero]

/-- Few enough digits make a number below a bound. -/
theorem intFits_iff (n : Int) : intFits n = true ↔ n.natAbs < 10 ^ Decimal.maxDigits := by
  rw [intFits, decide_eq_true_iff]
  exact Nat.length_toDigits_le_iff (by omega) (by decide)

/-- A power of ten has one digit more than its exponent. -/
theorem intFits_ten_pow {k : Nat} (h : Decimal.maxDigits ≤ k) : intFits (10 ^ k) = false := by
  rw [← Bool.not_eq_true, intFits_iff, Int.natAbs_pow, not_lt]
  exact Nat.pow_le_pow_right (by decide) h

/-- **A whole number is written as its numeral**, which is read as that
number if it has not too many digits, and refused for them if it has. -/
theorem intDigits_eq (n : Int) :
    intDigits n = signText (decide (n < 0)) ++ (wholeNumeral n).text numberLayout ∧
      ofNumeral (decide (n < 0)) (wholeNumeral n)
        = if intFits n then .ok (.int n) else .error .tooManyDigits := by
  constructor
  · by_cases hn : n < 0 <;> simp [intDigits, signText, hn, Numeral.text, Numeral.fractionText,
      Numeral.scaleText, wholeNumeral]
  · rw [ofNumeral, if_pos ⟨rfl, rfl⟩]
    by_cases h : intFits n = true
    · have hfew : ¬ Decimal.maxDigits < (wholeNumeral n).whole.length :=
        not_lt.2 (of_decide_eq_true h)
      rw [if_pos h, if_neg hfew]
      simp only [wholeNumeral, Decimal.valueOfDigits_toDigits, Decimal.signed_natAbs]
    · have hmany : Decimal.maxDigits < (wholeNumeral n).whole.length := by
        simpa [intFits, wholeNumeral] using h
      rw [if_neg h, if_pos hmany]

/-- A finite double is written as its sign and its shortest decimal. -/
theorem toList_write (layout : Layout) {x : Float} {negative : Bool} {m : Nat} {q : Int}
    (hx : Binary64.form x = .finite negative m q) :
    (layout.write x).toList
      = signText negative ++ layout.writeDecimal (Decimal.shortest m q) := by
  rw [Layout.write, hx]
  cases negative <;> simp [signText]

/-- **A finite double is written as a numeral** of its value, in any layout. -/
theorem exists_numeral_write (layout : Layout) {x : Float} {negative : Bool} {m : Nat} {q : Int}
    (hx : Binary64.form x = .finite negative m q) :
    ∃ n : Numeral, (layout.write x).toList = signText negative ++ n.text layout ∧
      Binary64.signed negative n.decimal.toFloat = x ∧
      (layout.keepsPointZero = true → n.fraction = [] → n.scale ≠ none) := by
  obtain ⟨n, htext, hvalue, hpoint⟩ :=
    Decimal.exists_numeral_writeDecimal layout Decimal.exponent_shortest
  exact ⟨n, by rw [toList_write layout hx, htext], Decimal.signed_toFloat hx hvalue, hpoint⟩

/-- **What a layout writes for a double**: a numeral of its value, or its
name. -/
theorem write_cases (layout : Layout) (x : Float) :
    (∃ negative, ∃ n : Numeral, (layout.write x).toList = signText negative ++ n.text layout ∧
      Binary64.signed negative n.decimal.toFloat = x ∧
      (layout.keepsPointZero = true → n.fraction = [] → n.scale ≠ none)) ∨
    ((layout.write x).toList = layout.nan.toList ∧ x = 0.0 / 0.0) ∨
    ∃ negative, (layout.write x).toList = signText negative ++ layout.infinity.toList ∧
      x = Binary64.signed negative Binary64.infinity := by
  have hx := Binary64.toFloat_form x
  rcases hform : Binary64.form x with _ | negative | ⟨negative, m, q⟩
  · refine .inr (.inl ⟨?_, ?_⟩)
    · rw [Layout.write, hform]
    · rw [hform] at hx
      exact hx.symm
  · refine .inr (.inr ⟨negative, ?_, ?_⟩)
    · rw [Layout.write, hform]
      cases negative <;> simp [signText]
    · rw [hform] at hx
      exact hx.symm
  · exact .inl ⟨negative, exists_numeral_write layout hform⟩

/-- In JSON text the numeral is read as the double that it is written for. -/
theorem numberText_cases (x : Float) :
    (∃ negative, ∃ n : Numeral,
      (numberLayout.write x).toList = signText negative ++ n.text numberLayout ∧
        ofNumeral negative n = .ok (.float x)) ∨
    ((numberLayout.write x).toList = "NaN".toList ∧ x = 0.0 / 0.0) ∨
    ∃ negative, (numberLayout.write x).toList = signText negative ++ "Infinity".toList ∧
      x = Binary64.signed negative Binary64.infinity := by
  rcases write_cases numberLayout x with ⟨negative, n, htext, hvalue, hpoint⟩ | hname
  · refine .inl ⟨negative, n, htext, ?_⟩
    rw [ofNumeral, if_neg fun h => hpoint rfl h.1 h.2, hvalue]
  · exact .inr hname

/-- **A number is read as a value**: it starts like no other one. -/
theorem readValue_numeral (layout : Layout) (n : Numeral) (negative : Bool) (bound : Nat)
    {rest : List Char} (hrest : EndsNumber rest) :
    readValue (bound + 1) (signText negative ++ (n.text layout ++ rest))
      = (ofNumeral negative n).map (·, rest) := by
  rw [← readNumber_text layout n negative hrest]
  obtain ⟨c, w, htext, hc⟩ := exists_cons_text layout n
  have hne : ∀ d : Char, d.isDigit = false → c ≠ d := by
    intro d hd
    exact ne_of_apply_ne Char.isDigit (by rw [hc, hd]; decide)
  rw [htext, List.cons_append]
  generalize w ++ rest = tail
  -- All other values start with other characters, or with other ones after a minus.
  cases negative with
  | false =>
    rw [signText, if_neg Bool.false_ne_true, List.nil_append, readValue]
    all_goals
      intros
      simp_all
  | true =>
    rw [signText, if_pos rfl, List.singleton_append, readValue]
    all_goals
      intros
      simp_all

/-- **A double is read as it is written.** -/
theorem readValue_write (x : Float) (bound : Nat) {rest : List Char} (hrest : EndsNumber rest) :
    readValue (bound + 1) ((numberLayout.write x).toList ++ rest) = .ok (.float x, rest) := by
  rcases numberText_cases x with ⟨negative, n, htext, hread⟩ | ⟨htext, rfl⟩ | ⟨negative, htext, rfl⟩
  · rw [htext, List.append_assoc, readValue_numeral _ _ _ _ hrest, hread]
    rfl
  · rw [htext]
    show readValue (bound + 1) ('N' :: 'a' :: 'N' :: rest) = _
    rw [readValue]
  · rw [htext]
    cases negative with
    | false =>
      show readValue (bound + 1) ('I' :: 'n' :: 'f' :: 'i' :: 'n' :: 'i' :: 't' :: 'y' :: rest) = _
      rw [readValue]
      rfl
    | true =>
      show readValue (bound + 1)
        ('-' :: 'I' :: 'n' :: 'f' :: 'i' :: 'n' :: 'i' :: 't' :: 'y' :: rest) = _
      rw [readValue]
      rfl

/-- **A whole number is read as it is written**, if it has not too many
digits. -/
theorem readValue_intDigits (k : Int) (bound : Nat) {rest : List Char} (hrest : EndsNumber rest) :
    readValue (bound + 1) (intDigits k ++ rest)
      = if intFits k then .ok (.int k, rest) else .error .tooManyDigits := by
  obtain ⟨htext, hread⟩ := intDigits_eq k
  rw [htext, List.append_assoc, readValue_numeral _ _ _ _ hrest, hread]
  split_ifs <;> rfl

end Lox.Json
