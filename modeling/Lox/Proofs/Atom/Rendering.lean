import Lox.Atom
import Lox.Json.Plain
import Lox.Proofs.Json.Number
import Lox.Proofs.Source.Lexeme
/-!
# Numbers as they are rendered

The display form and the debug form of a finite number denote the number that
its plain text denotes, with the same sign, zero included
(`Decimal.denoted?_write`). So both determine the number. The display form is
positional, without an exponent and without an empty fraction
(`Atom.isPositional_display`), and a scan reads it back as the number unless
there is a minus before it (`Atom.scan_display`). The debug form is the plain
text but for the spelling of its exponent (`Atom.debug_eq_withBareExponent`).
-/

namespace Lox

open Binary64 (form)
open Json (signText plainNumberLayout toList_write span_isDigit)

namespace Decimal

/-! ## What a text denotes -/

/-- The sign and the magnitude that a numeral denotes. -/
def denoted? (text : List Char) : Option (Bool × ℚ) :=
  let (negative, body) := splitSign text
  (readDecimal? body).map fun d => (negative, d.value)

variable {x y : Float} {negative : Bool} {m : Nat} {q : Int}

/-- A written exponent is read. -/
theorem readScale?_scaleText (layout : Layout) (n : Numeral) :
    readScale? (n.scaleText layout) = some (n.scale.getD 0) := by
  rw [Numeral.scaleText]
  rcases n.scale with _ | e
  · rfl
  · obtain ⟨body, -, hvalue, hsplit⟩ := exists_digits_writeExponent layout e
    have hsplit := hsplit []
    rw [List.append_nil, List.append_nil] at hsplit
    simp only [readScale?, true_or, if_true, readSigned?, hsplit, hvalue, Option.getD_some]
    exact congrArg some (signed_natAbs e)

/-- **A numeral is read as the decimal that it writes.** -/
theorem readDecimal?_text (layout : Layout) (n : Numeral) :
    readDecimal? (n.text layout) = some n.decimal := by
  have hscale : ∀ c ∈ (n.scaleText layout).head?, c.isDigit = false ∧ c ≠ '.' := by
    rw [Numeral.scaleText]
    rcases n.scale with _ | e
    · simp
    · rintro c hc
      obtain rfl := Option.some.inj hc
      decide
  have hread := readScale?_scaleText layout n
  rw [Numeral.text, List.append_assoc]
  generalize n.scaleText layout = scaled at hscale hread
  have hne : n.whole ≠ [] := n.isDigits_whole.1
  by_cases hnone : n.fraction = []
  · have hspan := span_isDigit n.isDigits_whole.2 fun c hc => (hscale c hc).1
    rw [Numeral.fractionText, if_pos hnone, List.nil_append, readDecimal?, hspan]
    dsimp only
    split
    · exact absurd rfl (hscale _ rfl).2
    · rw [if_neg fun h => hne h.1, hread, Numeral.decimal, hnone]
      rfl
  · have hspan : (n.whole ++ ('.' :: n.fraction ++ scaled)).span Char.isDigit
        = (n.whole, '.' :: n.fraction ++ scaled) := span_isDigit n.isDigits_whole.2 (by simp)
    have hfraction := span_isDigit n.isDigit_of_mem fun c hc => (hscale c hc).1
    rw [Numeral.fractionText, if_neg hnone, readDecimal?, hspan]
    simp only [List.cons_append, hfraction, hne, false_and, if_false, hread, Option.map_some,
      Numeral.decimal]

/-- A sign before a numeral is split off. -/
theorem splitSign_signText (layout : Layout) (negative : Bool) (n : Numeral) :
    splitSign (signText negative ++ n.text layout) = (negative, n.text layout) := by
  obtain ⟨c, w, htext, hc⟩ := Json.exists_cons_text layout n
  cases negative with
  | true => rfl
  | false =>
    rw [htext]
    exact splitSign_cons_of_isDigit hc

/-- **A finite double is written as a text that denotes** its shortest decimal
with its sign, in any layout. -/
theorem denoted?_write (layout : Layout) (hx : form x = .finite negative m q) :
    denoted? (layout.write x).toList = some (negative, (shortest m q).value) := by
  obtain ⟨n, htext, hvalue, -⟩ := exists_numeral_writeDecimal layout exponent_shortest
  rw [toList_write layout hx, htext, denoted?, splitSign_signText, ← hvalue]
  simp only [readDecimal?_text, Option.map_some]

/-- **So what a text denotes determines the double** that it was written for. -/
theorem eq_of_denoted?_eq {layout layout' : Layout} {negative' : Bool} {m' : Nat} {q' : Int}
    (hx : form x = .finite negative m q) (hy : form y = .finite negative' m' q')
    (h : denoted? (layout.write x).toList = denoted? (layout'.write y).toList) : x = y := by
  rw [denoted?_write layout hx, denoted?_write layout' hy] at h
  obtain ⟨rfl, hvalue⟩ := Prod.mk.inj (Option.some.inj h)
  -- The same decimal reads back as either double.
  exact (signed_toFloat hx hvalue.symm).symm.trans (signed_toFloat hy rfl)

/-! ## Positional text -/

/-- The last digit of a number. -/
theorem getLast?_toDigits (n : Nat) :
    (Nat.toDigits 10 n).getLast? = some (n % 10).digitChar := by
  by_cases hn : n < 10
  · rw [Nat.toDigits_of_lt_base hn, Nat.mod_eq_of_lt hn]
    rfl
  · rw [Nat.toDigits_of_base_le (by omega) (by omega), List.getLast?_concat]

/-- What ends in the last digit of a decimal without zeros at its end does not
end in a zero, unless the decimal is zero. -/
theorem pointZero_not_suffix_append {d : Decimal}
    (hmod : d.coefficient % 10 = 0 → d.coefficient = 0) (hd : d.digits ≠ ['0'])
    (before : List Char) {after : List Char} (hafter : after <:+ d.digits) (hne : after ≠ []) :
    ¬ ['.', '0'] <:+ before ++ after := by
  rintro ⟨front, hfront⟩
  obtain ⟨init, hinit⟩ := hafter
  have hend : after.getLast? = some '0' := by
    rw [← List.getLast?_append_of_ne_nil before hne, ← hfront]
    simp
  have hdigit : d.digits.getLast? = some (d.coefficient % 10).digitChar := getLast?_toDigits _
  rw [← hinit, List.getLast?_append_of_ne_nil init hne, hend] at hdigit
  have hcoefficient := hmod (Nat.digitChar_eq_zero.1 (Option.some.inj hdigit).symm)
  exact hd (by simp [digits, hcoefficient])

/-- The point of zero is behind its only digit. -/
theorem point_of_digits_eq_zero {d : Decimal} (hzero : d.coefficient = 0 → d.exponent = 0)
    (h : d.digits = ['0']) : d.point = 1 := by
  have hcoefficient : d.coefficient = 0 := coefficient_of_head (by rw [h]; rfl)
  rw [point, h, hzero hcoefficient]
  rfl

/-- A decimal without zeros at its end is written without a fraction of zero. -/
theorem pointZero_not_suffix {layout : Layout} (hkeep : layout.keepsPointZero = false)
    {d : Decimal} (hzero : d.coefficient = 0 → d.exponent = 0)
    (hmod : d.coefficient % 10 = 0 → d.coefficient = 0) :
    ¬ ['.', '0'] <:+ layout.writePositional d := by
  rw [Layout.writePositional, hkeep, if_neg Bool.false_ne_true, List.append_nil]
  split_ifs with hsmall hwhole
  · have hd : d.digits ≠ ['0'] := fun h => by have := point_of_digits_eq_zero hzero h; omega
    exact pointZero_not_suffix_append hmod hd _ List.suffix_rfl (isDigits_digits d).1
  · -- A whole number has no point.
    intro hsuffix
    rcases List.mem_append.1 (hsuffix.subset List.mem_cons_self) with hdigit | hdigit
    · cases (isDigits_digits d).2 _ hdigit
    · cases isDigit_of_mem_zeros hdigit
  · have hlength : d.point.toNat < d.digits.length := by omega
    have hd : d.digits ≠ ['0'] := by
      intro h
      have hpoint := point_of_digits_eq_zero hzero h
      rw [h, List.length_singleton] at hlength
      omega
    rw [List.append_cons]
    exact pointZero_not_suffix_append hmod hd _ (List.drop_suffix _ _) (by simpa using hlength)

/-- A numeral without an exponent is one of a program. -/
theorem isNumeral_text {layout : Layout} {n : Numeral} (h : n.scale = none) :
    IsNumeral (n.text layout) := by
  rw [Numeral.text, Numeral.scaleText, h, List.append_nil, Numeral.fractionText]
  split_ifs with hnone
  · rw [List.append_nil]
    exact .inl n.isDigits_whole
  · exact .inr ⟨_, _, n.isDigits_whole, ⟨hnone, n.isDigit_of_mem⟩, rfl⟩

/-! ## Exponents -/

/-- An exponent without plus sign and leading zeros. -/
def bareExponent (exponent : List Char) : List Char :=
  (if exponent.head? = some '-' then ['-'] else [])
    ++ (exponent.dropWhile fun c => c == '+' || c == '-').dropWhile (· == '0')

/-- A numeral with its exponent bare, if it has one. -/
def withBareExponent (text : List Char) : List Char :=
  match text.dropWhile (· != 'e') with
  | [] => text
  | mark :: exponent => text.takeWhile (· != 'e') ++ mark :: bareExponent exponent

/-- Digits have no sign. -/
theorem dropWhile_sign_of_isDigits {text : List Char} (h : IsDigits text) :
    (text.dropWhile fun c => c == '+' || c == '-') = text := by
  obtain ⟨c, rest, rfl, hc⟩ := IsNumeral.exists_cons (.inl h)
  have hplus : c ≠ '+' := by rintro rfl; cases hc
  have hminus : c ≠ '-' := by rintro rfl; cases hc
  simp [hplus, hminus]

/-- **What a layout adds to an exponent is dropped**: a plus sign and zeros. -/
theorem bareExponent_writeExponent (layout : Layout) {e : Int} (he : e ≠ 0) :
    bareExponent (layout.writeExponent e)
      = (if e < 0 then ['-'] else []) ++ Nat.toDigits 10 e.natAbs := by
  let digits := Nat.toDigits 10 e.natAbs
  let zeros := List.replicate (layout.exponentWidth - digits.length) '0'
  have hdigits : IsDigits digits := isDigits_digits ⟨e.natAbs, 0⟩
  have hpadded : IsDigits (zeros ++ digits) :=
    ⟨by simp [hdigits.1], List.forall_mem_append.2 ⟨fun c => isDigit_of_mem_zeros, hdigits.2⟩⟩
  have hsign := dropWhile_sign_of_isDigits hpadded
  have hzeros : (zeros ++ digits).dropWhile (· == '0') = digits := by
    have hhead : digits.head? ≠ some '0' := head_toDigits_ne (Int.natAbs_pos.2 he)
    rw [List.dropWhile_append_of_pos fun c hc => by simp [List.eq_of_mem_replicate hc]]
    obtain ⟨c, w, hcons⟩ := List.exists_cons_of_ne_nil hdigits.1
    rw [hcons] at hhead ⊢
    simpa using hhead
  have hwrite : layout.writeExponent e
      = (if e < 0 then ['-'] else if layout.plusSign then ['+'] else []) ++ (zeros ++ digits) := by
    rw [Layout.writeExponent, List.append_assoc]
  have hminus : (zeros ++ digits).head? ≠ some '-' := by
    obtain ⟨c, w, hcons, hc⟩ := IsNumeral.exists_cons (.inl hpadded)
    rw [hcons]
    rintro ⟨⟩
    cases hc
  rw [bareExponent, hwrite, show Nat.toDigits 10 e.natAbs = digits from rfl]
  generalize zeros ++ digits = padded at hsign hzeros hminus
  by_cases hneg : e < 0
  · simp [hneg, hsign, hzeros]
  · cases layout.plusSign <;> simp [hneg, hsign, hzeros, hminus]

/-- Text without an exponent stays as it is. -/
theorem withBareExponent_of_notMem {text : List Char} (h : 'e' ∉ text) :
    withBareExponent text = text := by
  rw [withBareExponent, List.dropWhile_eq_nil_iff.2 (Source.Piece.bne_of_not_mem h)]

/-- An exponent after its mark is made bare. -/
theorem withBareExponent_append {before : List Char} (h : 'e' ∉ before) (exponent : List Char) :
    withBareExponent (before ++ 'e' :: exponent) = before ++ 'e' :: bareExponent exponent := by
  have hbefore := Source.Piece.bne_of_not_mem h
  rw [withBareExponent, List.dropWhile_append_of_pos hbefore, List.takeWhile_append_of_pos hbefore]
  simp

/-- A text with an exponent has the same digits before it in every layout. -/
theorem writeScientific_eq (d : Decimal) : ∃ mantissa, 'e' ∉ mantissa ∧
    ∀ layout : Layout, layout.writeScientific d
      = mantissa ++ 'e' :: layout.writeExponent (d.point - 1) := by
  obtain ⟨hne, hdigit⟩ := isDigits_digits d
  have hnotMem : 'e' ∉ d.digits := fun hmem => by cases hdigit _ hmem
  simp only [Layout.writeScientific]
  generalize d.digits = digits at hne hnotMem
  rcases digits with _ | ⟨c, _ | ⟨c', rest⟩⟩
  · exact absurd rfl hne
  · exact ⟨[c], hnotMem, fun layout => rfl⟩
  · refine ⟨c :: '.' :: c' :: rest, ?_, fun layout => rfl⟩
    simpa using hnotMem

end Decimal

namespace Source

/-- **A lexeme alone is one token**, in either mode. -/
theorem result_of_lexeme {text : String} {kind : Kind} {value : Json}
    (h : Lexeme text.toList kind value) (lenient : Bool) :
    (scan text).result lenient = .ok [⟨kind, text, 1 + text.toList.count '\n', value⟩,
      .eof (1 + text.toList.count '\n')] := by
  obtain ⟨c, w, htext, hread, hvalue⟩ := h.read_self
  have hcut : cut text.toList = [.token kind text.toList] := by
    rw [htext, cut, ← htext, hread, cut]
  have hscan : scan text = ⟨[⟨kind, text, 1 + text.toList.count '\n', value⟩,
      .eof (1 + text.toList.count '\n')], []⟩ := by
    simp only [scan, hcut, tokensFrom, faultsFrom, Piece.endLine, Piece.text, hvalue,
      String.ofList_toList]
  rw [hscan]
  cases lenient <;> rfl

end Source

namespace Atom

variable {x : Float} {negative : Bool} {m : Nat} {q : Int}

/-- **Positional text**: digits, perhaps a point with digits after it, and
perhaps a minus before it all. There is no exponent and no fraction of zero. -/
def IsPositional (text : List Char) : Prop :=
  (∃ negative body, text = signText negative ++ body ∧ IsNumeral body) ∧ ¬ ['.', '0'] <:+ text

/-- A finite number is displayed as a numeral without exponent. -/
theorem exists_numeral_positional (hx : form x = .finite negative m q) :
    ∃ n : Decimal.Numeral,
      (displayLayout.write x).toList = signText negative ++ n.text displayLayout ∧
      n.scale = none ∧ n.decimal.value = (Decimal.shortest m q).value ∧
      ¬ ['.', '0'] <:+ n.text displayLayout := by
  obtain ⟨n, htext, hvalue, hscale, -⟩ := Decimal.exists_numeral_writePositional displayLayout
    (Decimal.exponent_shortest (m := m) (q := q))
  refine ⟨n, ?_, hscale, hvalue, ?_⟩
  · rw [toList_write displayLayout hx, ← htext]
    rfl
  · rw [← htext]
    exact Decimal.pointZero_not_suffix rfl Decimal.exponent_shortest
      Decimal.coefficient_shortest_mod

/-- **The display form of a finite number is positional.** -/
theorem isPositional_display (hx : form x = .finite negative m q) :
    IsPositional (displayLayout.write x).toList := by
  obtain ⟨n, htext, hscale, -, hsuffix⟩ := exists_numeral_positional hx
  rw [htext]
  refine ⟨⟨negative, _, rfl, Decimal.isNumeral_text hscale⟩, ?_⟩
  cases negative with
  | false => exact hsuffix
  | true =>
    rw [signText, if_pos rfl, List.singleton_append, List.suffix_cons_iff]
    rintro (heq | hmem)
    · cases heq
    · exact hsuffix hmem

/-- **The display form of a number without a minus is read back** by a scan: it
is one token, which carries the number. -/
theorem scan_display (hx : form x = .finite false m q) (lenient : Bool) :
    (Source.scan (displayLayout.write x)).result lenient
      = .ok [⟨.number, displayLayout.write x, 1, .float x⟩, .eof 1] := by
  obtain ⟨n, htext, hscale, hvalue, -⟩ := exists_numeral_positional hx
  rw [signText, if_neg Bool.false_ne_true, List.nil_append] at htext
  generalize displayLayout.write x = text at htext ⊢
  have hnumeral : IsNumeral (n.text displayLayout) := Decimal.isNumeral_text hscale
  have hnumber : Decimal.ofNumber (n.text displayLayout) = n.decimal :=
    Option.some.inj ((Decimal.readDecimal?_of_isNumeral hnumeral).symm.trans
      (Decimal.readDecimal?_text displayLayout n))
  have hread := Decimal.signed_toFloat hx hvalue
  rw [Binary64.signed, if_neg Bool.false_ne_true] at hread
  have hlexeme : Source.Lexeme text.toList .number (.float x) := by
    rw [htext]
    exact .number hnumeral (by rw [Decimal.readFloat?_of_isNumeral hnumeral, hnumber, hread])
  have hline : text.toList.count '\n' = 0 := by
    refine List.count_eq_zero.2 fun hmem => ?_
    rw [htext] at hmem
    exact absurd (hnumeral.digit_or_point hmem) (by decide)
  have hresult := Source.result_of_lexeme hlexeme lenient
  rwa [hline, Nat.cast_zero, add_zero] at hresult

/-- The debug form adds nothing to an exponent. -/
theorem writeExponent_debug (e : Int) : debugLayout.writeExponent e
    = (if e < 0 then ['-'] else []) ++ Nat.toDigits 10 e.natAbs := by
  have hlength : 0 < (Nat.toDigits 10 e.natAbs).length := Nat.length_toDigits_pos
  simp [Decimal.Layout.writeExponent, debugLayout, Nat.sub_eq_zero_of_le hlength]

/-- **The debug form is the plain text** with its exponent bare. -/
theorem debug_eq_withBareExponent (hx : form x = .finite negative m q) :
    (debugLayout.write x).toList
      = Decimal.withBareExponent (plainNumberLayout.write x).toList := by
  have hsign (before : List Char) (h : 'e' ∉ before) : 'e' ∉ signText negative ++ before := by
    cases negative <;> simpa [signText] using h
  let d := Decimal.shortest m q
  rw [toList_write debugLayout hx, toList_write plainNumberLayout hx]
  -- The two layouts choose alike, and differ in exponents alone.
  by_cases hpositional : debugLayout.positional (d.point - 1) = true
  · have hplain : plainNumberLayout.writeDecimal d = debugLayout.writePositional d :=
      if_pos hpositional
    have hdebug : debugLayout.writeDecimal d = debugLayout.writePositional d := if_pos hpositional
    obtain ⟨n, htext, -, hscale, -⟩ := Decimal.exists_numeral_writePositional debugLayout
      (Decimal.exponent_shortest (m := m) (q := q))
    have hnotMem : 'e' ∉ debugLayout.writePositional d := by
      rw [htext]
      exact fun hmem => absurd ((Decimal.isNumeral_text hscale).digit_or_point hmem) (by decide)
    rw [hplain, hdebug, Decimal.withBareExponent_of_notMem (hsign _ hnotMem)]
  · obtain ⟨mantissa, hnotMem, hwrite⟩ := Decimal.writeScientific_eq d
    have hplain : plainNumberLayout.writeDecimal d = plainNumberLayout.writeScientific d :=
      if_neg hpositional
    have hdebug : debugLayout.writeDecimal d = debugLayout.writeScientific d := if_neg hpositional
    have hne : d.point - 1 ≠ 0 := by
      intro hzero
      rw [hzero] at hpositional
      exact hpositional rfl
    rw [hplain, hdebug, hwrite, hwrite, ← List.append_assoc, ← List.append_assoc,
      Decimal.withBareExponent_append (hsign _ hnotMem),
      Decimal.bareExponent_writeExponent _ hne, writeExponent_debug]

/-- **A finite number keeps its value however it is rendered.** The display form
is positional, and the debug form is the plain text with its exponent bare. All
three denote one decimal, which reads back as the number, with the number's sign;
so each form determines the number. If there is no minus, a scan of the display
form finds one token, which is all of it and carries the number. -/
theorem rendering_keeps_number {x : Float} (hx : x.isFinite = true) :
    let plain := plainNumberLayout.write x
    let display := displayLayout.write x
    let debug := debugLayout.write x
    IsPositional display.toList ∧ debug.toList = Decimal.withBareExponent plain.toList ∧
      (∃ d : Decimal, Binary64.signed (Binary64.isNegative x) d.toFloat = x ∧
        Decimal.denoted? plain.toList = some (Binary64.isNegative x, d.value) ∧
        Decimal.denoted? display.toList = some (Binary64.isNegative x, d.value) ∧
        Decimal.denoted? debug.toList = some (Binary64.isNegative x, d.value)) ∧
      (∀ y : Float, y.isFinite = true → displayLayout.write y = display → y = x) ∧
      (∀ y : Float, y.isFinite = true → debugLayout.write y = debug → y = x) ∧
      (Binary64.isNegative x = false → ∀ lenient, (Source.scan display).result lenient
        = .ok [⟨.number, display, 1, .float x⟩, .eof 1]) := by
  intro plain display debug
  obtain ⟨m, q, hform⟩ := Binary64.exists_form_of_isFinite hx
  have hinj (layout : Decimal.Layout) (y : Float) (hy : y.isFinite = true)
      (h : layout.write y = layout.write x) : y = x := by
    obtain ⟨m', q', hform'⟩ := Binary64.exists_form_of_isFinite hy
    exact Decimal.eq_of_denoted?_eq hform' hform
      (congrArg (fun text => Decimal.denoted? text.toList) h)
  refine ⟨isPositional_display hform, debug_eq_withBareExponent hform,
    ⟨Decimal.shortest m q, Decimal.signed_toFloat hform rfl, Decimal.denoted?_write _ hform,
      Decimal.denoted?_write _ hform, Decimal.denoted?_write _ hform⟩,
    hinj displayLayout, hinj debugLayout, fun hsign lenient => ?_⟩
  rw [hsign] at hform
  exact scan_display hform lenient

/-- A small number has an exponent in the debug form and zeros in the display
form. -/
theorem rendering_keeps_small_number :
    let x : Float := 1.5e-7
    x.isFinite = true ∧ Binary64.isNegative x = false ∧
      (Source.scan "0.00000015").result true
        = .ok [⟨.number, "0.00000015", 1, .float x⟩, .eof 1] ∧
      "1.5e-7".toList = Decimal.withBareExponent "1.5e-07".toList ∧
      (Decimal.denoted? "0.00000015".toList = Decimal.denoted? "1.5e-07".toList ∧
        ∀ y : Float, y.isFinite = true → debugLayout.write y = "1.5e-7" → y = x) := by
  intro x
  have hfinite : x.isFinite = true := by decide +kernel
  have hsign : Binary64.isNegative x = false := by decide +kernel
  have hdisplay : displayLayout.write x = "0.00000015" := by decide +kernel
  have hplain : plainNumberLayout.write x = "1.5e-07" := by decide +kernel
  have hdebug : debugLayout.write x = "1.5e-7" := by decide +kernel
  have hx := rendering_keeps_number hfinite
  rw [hdisplay, hplain, hdebug] at hx
  obtain ⟨-, hbare, ⟨d, -, hd, hd', -⟩, -, hinj, hscan⟩ := hx
  exact ⟨hfinite, hsign, hscan hsign true, hbare, hd'.trans hd.symm, hinj⟩

end Atom

end Lox
