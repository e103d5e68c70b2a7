import Lox.Decimal.Layout
import Lox.Proofs.Decimal.Value
import Lox.Proofs.Source.Numeral
/-!
# The text of decimals

What a layout writes for a decimal is a numeral: digits, perhaps a point
with digits after it, and perhaps an exponent. However the layout sets the
digits out, the numeral has the value of the decimal
(`exists_numeral_writeDecimal`).
-/

namespace Lox.Decimal

/-- A numeral taken apart. It has no zeros in front of other digits. -/
structure Numeral where
  whole : List Char
  /-- The digits after the point; without any there is no point. -/
  fraction : List Char
  /-- The exponent, if one is written. -/
  scale : Option Int
  isDigits_whole : IsDigits whole
  isDigit_of_mem : ∀ c ∈ fraction, c.isDigit = true
  whole_eq_zero : whole.head? = some '0' → whole = ['0']

namespace Numeral

/-- The decimal that a numeral writes. -/
def decimal (n : Numeral) : Decimal :=
  ofDigits n.whole n.fraction (n.scale.getD 0)

/-- The digits after the point, with the point. -/
def fractionText (n : Numeral) : List Char :=
  if n.fraction = [] then [] else '.' :: n.fraction

/-- The exponent with its mark. -/
def scaleText (layout : Layout) (n : Numeral) : List Char :=
  match n.scale with
  | none => []
  | some e => 'e' :: layout.writeExponent e

/-- A numeral as a layout writes it. -/
def text (layout : Layout) (n : Numeral) : List Char :=
  n.whole ++ n.fractionText ++ n.scaleText layout

end Numeral

/-- The digits of a decimal are digits. -/
theorem isDigits_digits (d : Decimal) : IsDigits d.digits :=
  ⟨Nat.toDigits_ne_nil, fun _ h => Nat.isDigit_of_mem_toDigits (by omega) (by omega) h⟩

/-- A zero in front is the only digit. -/
theorem coefficient_of_head {d : Decimal} (h : d.digits.head? = some '0') : d.coefficient = 0 := by
  by_contra hne
  exact head_toDigits_ne (Nat.pos_of_ne_zero hne) h

/-- Equal coefficients and exponents make equal values. -/
theorem value_congr {d d' : Decimal} (hc : d.coefficient = d'.coefficient)
    (he : d.exponent = d'.exponent) : d.value = d'.value := by
  rw [value, value, hc, he]

/-- Zeros are digits. -/
theorem isDigit_of_mem_zeros {k : Nat} {c : Char} (h : c ∈ List.replicate k '0') :
    c.isDigit = true := by
  rw [List.eq_of_mem_replicate h]
  rfl

/-- The digits of a whole number with the zeros that its exponent adds. -/
theorem wholeDigits (d : Decimal) (h : d.coefficient = 0 → d.exponent = 0) (he : 0 ≤ d.exponent) :
    let whole := d.digits ++ List.replicate d.exponent.toNat '0'
    IsDigits whole ∧ (whole.head? = some '0' → whole = ['0']) ∧
      (valueOfDigits whole : ℚ) = d.value := by
  intro whole
  obtain ⟨hne, hdigit⟩ := isDigits_digits d
  refine ⟨⟨by simp [whole, hne], List.forall_mem_append.2
    ⟨hdigit, fun c => isDigit_of_mem_zeros⟩⟩, fun hhead => ?_, ?_⟩
  · rw [List.head?_append_of_ne_nil _ hne] at hhead
    have hzero := coefficient_of_head hhead
    simp [whole, digits, hzero, h hzero]
  · rw [valueOfDigits_append, digits, valueOfDigits_toDigits, valueOfDigits_zeros, value,
      Binary64.zpow_eq_div (by norm_num), Int.toNat_eq_zero.2 (by omega : -d.exponent ≤ 0)]
    simp [mul_comm]

/-- **A decimal with its point in place** is a numeral of the same value
without an exponent. -/
theorem exists_numeral_writePositional (layout : Layout) {d : Decimal}
    (h : d.coefficient = 0 → d.exponent = 0) :
    ∃ n : Numeral, layout.writePositional d = n.text layout ∧ n.decimal.value = d.value ∧
      n.scale = none ∧ (layout.keepsPointZero = true → n.fraction ≠ []) := by
  obtain ⟨hne, hdigit⟩ := isDigits_digits d
  have hpoint : d.point = d.digits.length + d.exponent := rfl
  have hvalue : valueOfDigits d.digits = d.coefficient := valueOfDigits_toDigits _
  rw [Layout.writePositional]
  split_ifs with hsmall hwhole hkeep
  · let fraction := List.replicate (-d.point).toNat '0' ++ d.digits
    refine ⟨⟨['0'], fraction, none, by simp [IsDigits], ?_, fun _ => rfl⟩, ?_, ?_, rfl, ?_⟩
    · exact List.forall_mem_append.2 ⟨fun c => isDigit_of_mem_zeros, hdigit⟩
    · simp [Numeral.text, Numeral.fractionText, Numeral.scaleText, fraction, hne]
    · refine value_congr ?_ ?_
      · show valueOfDigits (['0'] ++ fraction) = d.coefficient
        rw [valueOfDigits_append, valueOfDigits_append, valueOfDigits_zeros, hvalue]
        simp [valueOfDigits]
      · show (0 : Int) - fraction.length = d.exponent
        rw [List.length_append, List.length_replicate]
        omega
    · simp [fraction, hne]
  · obtain ⟨hdigits, hzero, heq⟩ := wholeDigits d h (by omega)
    refine ⟨⟨_, ['0'], none, hdigits, by simp, hzero⟩,
      by simp [Numeral.text, Numeral.fractionText, Numeral.scaleText], ?_, rfl, by simp⟩
    rw [← heq, Numeral.decimal, ofDigits, value, valueOfDigits_append,
      show valueOfDigits ['0'] = 0 from rfl]
    norm_num
    ring
  · obtain ⟨hdigits, hzero, heq⟩ := wholeDigits d h (by omega)
    refine ⟨⟨_, [], none, hdigits, by simp, hzero⟩,
      by simp [Numeral.text, Numeral.fractionText, Numeral.scaleText], ?_, rfl, by simp [hkeep]⟩
    rw [← heq, Numeral.decimal, ofDigits, value]
    simp
  · have happ := List.take_append_drop d.point.toNat d.digits
    have hdigit := List.forall_mem_append.1 (happ.symm ▸ hdigit)
    have hlength : d.point.toNat < d.digits.length := by omega
    have hfraction : d.digits.drop d.point.toNat ≠ [] := by simpa using hlength
    have hwhole : d.digits.take d.point.toNat ≠ [] := by simp [hne, hsmall]
    refine ⟨⟨_, _, none, ⟨hwhole, hdigit.1⟩, hdigit.2, fun hhead => ?_⟩, ?_, ?_, rfl, ?_⟩
    · -- Zero has no digits after its first one.
      have hzero : d.coefficient = 0 := by
        refine coefficient_of_head ?_
        rw [← happ, List.head?_append_of_ne_nil _ hwhole]
        exact hhead
      have hone : d.digits = ['0'] := by simp [digits, hzero]
      rw [hone] at hlength
      simp only [List.length_singleton] at hlength
      omega
    · simp [Numeral.text, Numeral.fractionText, Numeral.scaleText, hfraction]
    · refine value_congr ?_ ?_
      · show valueOfDigits (d.digits.take d.point.toNat ++ d.digits.drop d.point.toNat) = _
        rw [happ, hvalue]
      · show (0 : Int) - (d.digits.drop d.point.toNat).length = d.exponent
        rw [List.length_drop]
        omega
    · exact fun _ => hfraction

/-- **An exponent's digits have its value**, and its sign stands before them. -/
theorem exists_digits_writeExponent (layout : Layout) (e : Int) :
    ∃ body, IsDigits body ∧ readDigits? body = some e.natAbs ∧
      ∀ rest, splitSign (layout.writeExponent e ++ rest) = (decide (e < 0), body ++ rest) := by
  let digits := Nat.toDigits 10 e.natAbs
  let body := List.replicate (layout.exponentWidth - digits.length) '0' ++ digits
  have hbody : IsDigits body := by
    refine ⟨by simp [body, digits], List.forall_mem_append.2
      ⟨fun c => isDigit_of_mem_zeros, fun c hc => ?_⟩⟩
    exact Nat.isDigit_of_mem_toDigits (by omega) (by omega) hc
  have hvalue : readDigits? body = some e.natAbs := by
    rw [readDigits?, if_pos ⟨hbody.1, List.all_eq_true.2 hbody.2⟩, valueOfDigits_append,
      valueOfDigits_zeros, valueOfDigits_toDigits]
    simp
  refine ⟨body, hbody, hvalue, fun rest => ?_⟩
  have hplain : splitSign (body ++ rest) = (false, body ++ rest) := by
    obtain ⟨c, w, heq, hc⟩ := IsNumeral.exists_cons (.inl hbody)
    rw [heq]
    exact splitSign_cons_of_isDigit hc
  have hwrite : layout.writeExponent e
      = (if e < 0 then ['-'] else if layout.plusSign then ['+'] else []) ++ body := by
    rw [Layout.writeExponent, List.append_assoc]
  rw [hwrite]
  by_cases he : e < 0
  · rw [if_pos he, decide_eq_true he]
    rfl
  · rw [if_neg he, decide_eq_false he]
    split_ifs
    · rfl
    · exact hplain

/-- A sign and a magnitude make up a whole number. -/
theorem signed_natAbs (e : Int) :
    (if decide (e < 0) = true then -(e.natAbs : Int) else e.natAbs) = e := by
  by_cases he : e < 0
  · rw [if_pos (decide_eq_true he)]
    omega
  · rw [if_neg (by simpa using he)]
    omega

/-- **A decimal with an exponent** is a numeral of the same value. -/
theorem exists_numeral_writeScientific (layout : Layout) (d : Decimal) :
    ∃ n : Numeral, layout.writeScientific d = n.text layout ∧ n.decimal.value = d.value ∧
      n.scale ≠ none := by
  obtain ⟨hne, hdigit⟩ := isDigits_digits d
  have hvalue : valueOfDigits d.digits = d.coefficient := valueOfDigits_toDigits _
  have hpoint : d.point = d.digits.length + d.exponent := rfl
  obtain ⟨c, rest, hdigits⟩ := List.exists_cons_of_ne_nil hne
  rw [hdigits] at hdigit hvalue hpoint
  obtain ⟨hc, hrest⟩ := List.forall_mem_cons.1 hdigit
  refine ⟨⟨[c], rest, some (d.point - 1), by simp [IsDigits, hc], hrest, by simp⟩, ?_, ?_, by simp⟩
  · rw [Layout.writeScientific, hdigits, Numeral.text, Numeral.fractionText, Numeral.scaleText]
    cases rest <;> simp
  · refine value_congr hvalue ?_
    show d.point - 1 - rest.length = d.exponent
    rw [hpoint, List.length_cons]
    omega

/-- **What a layout writes for a decimal** is a numeral of the same value,
which has a point or an exponent if the layout keeps `.0`. -/
theorem exists_numeral_writeDecimal (layout : Layout) {d : Decimal}
    (h : d.coefficient = 0 → d.exponent = 0) :
    ∃ n : Numeral, layout.writeDecimal d = n.text layout ∧ n.decimal.value = d.value ∧
      (layout.keepsPointZero = true → n.fraction = [] → n.scale ≠ none) := by
  rw [Layout.writeDecimal]
  split_ifs
  · obtain ⟨n, htext, hvalue, -, hpoint⟩ := exists_numeral_writePositional layout h
    exact ⟨n, htext, hvalue, fun hkeep hnone => absurd hnone (hpoint hkeep)⟩
  · obtain ⟨n, htext, hvalue, hscale⟩ := exists_numeral_writeScientific layout d
    exact ⟨n, htext, hvalue, fun _ _ => hscale⟩

end Lox.Decimal
