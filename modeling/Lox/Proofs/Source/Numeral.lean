import Lox.Decimal.Numeral
import Mathlib
/-!
# Numerals of a program

The numbers that a program may write: digits, and perhaps a point with
digits on both sides of it. What a number token carries is computed from
the digits alone; `readFloat?_of_isNumeral` says that it is the double
that the general reader of numerals finds in the same text.
-/

namespace Lox

/-- What is taken while a test holds ends before a text that starts with
nothing that passes it. -/
theorem takeWhile_append_of_head {p : Char → Bool} {after : List Char}
    (h : ∀ c ∈ after.head?, p c = false) (w : List Char) :
    (w ++ after).takeWhile p = w.takeWhile p ∧
      (w ++ after).dropWhile p = w.dropWhile p ++ after := by
  induction w with
  | nil =>
    rcases after with _ | ⟨c, after⟩
    · exact ⟨rfl, rfl⟩
    · have hc : p c = false := h c rfl
      simp [hc]
  | cons c w ih => by_cases hc : p c = true <;> simp [hc, ih]

/-- One decimal digit or more. -/
def IsDigits (text : List Char) : Prop :=
  text ≠ [] ∧ ∀ c ∈ text, c.isDigit = true

/-- **The numerals of a program**: digits, or digits around a point. -/
def IsNumeral (text : List Char) : Prop :=
  IsDigits text ∨
    ∃ whole fraction, IsDigits whole ∧ IsDigits fraction ∧ text = whole ++ '.' :: fraction

/-- A numeral starts with a digit. -/
theorem IsNumeral.exists_cons {text : List Char} (h : IsNumeral text) :
    ∃ c rest, text = c :: rest ∧ c.isDigit = true := by
  have key : ∀ {digits : List Char}, IsDigits digits →
      ∃ c rest, digits = c :: rest ∧ c.isDigit = true := by
    rintro (_ | ⟨c, rest⟩) ⟨hne, hall⟩
    · exact absurd rfl hne
    · exact ⟨c, rest, rfl, hall c List.mem_cons_self⟩
  rcases h with h | ⟨whole, fraction, hw, -, rfl⟩
  · exact key h
  · obtain ⟨c, rest, rfl, hc⟩ := key hw
    exact ⟨c, rest ++ '.' :: fraction, rfl, hc⟩

/-- And it ends with one. -/
theorem IsNumeral.exists_concat {text : List Char} (h : IsNumeral text) :
    ∃ rest c, text = rest ++ [c] ∧ c.isDigit = true := by
  have key : ∀ {digits : List Char}, IsDigits digits →
      ∃ rest c, digits = rest ++ [c] ∧ c.isDigit = true := by
    rintro digits ⟨hne, hall⟩
    exact ⟨digits.dropLast, digits.getLast hne, (List.dropLast_concat_getLast hne).symm,
      hall _ (List.getLast_mem hne)⟩
  rcases h with h | ⟨whole, fraction, -, hf, rfl⟩
  · exact key h
  · obtain ⟨rest, c, rfl, hc⟩ := key hf
    exact ⟨whole ++ '.' :: rest, c, by simp, hc⟩

/-- Its characters are digits and points. -/
theorem IsNumeral.digit_or_point {text : List Char} (h : IsNumeral text) {c : Char}
    (hc : c ∈ text) : c.isDigit = true ∨ c = '.' := by
  rcases h with h | ⟨whole, fraction, hw, hf, rfl⟩
  · exact .inl (h.2 c hc)
  · rcases List.mem_append.1 hc with hc | hc
    · exact .inl (hw.2 c hc)
    · rcases List.mem_cons.1 hc with rfl | hc
      · exact .inr rfl
      · exact .inl (hf.2 c hc)

namespace Decimal

/-- A digit lies among the code points of the ASCII digits. -/
theorem bounds_of_isDigit {c : Char} (h : c.isDigit = true) : 48 ≤ c.toNat ∧ c.toNat ≤ 57 := by
  simp only [Char.isDigit, Bool.and_eq_true, decide_eq_true_eq, ge_iff_le,
    UInt32.le_iff_toNat_le] at h
  exact h

/-- A digit is no blank. -/
theorem isBlank_of_isDigit {c : Char} (h : c.isDigit = true) : isBlank c = false := by
  have hb := bounds_of_isDigit h
  have hs : c ≠ ' ' := by rintro rfl; revert h; decide
  have hr : ¬ c.toNat ≤ 13 := by omega
  simp [isBlank, hs, hr]

/-- Text in ASCII with no blank at either end is its own normal form. -/
theorem normalizeNumeral?_of_isNumeral {text : List Char} (h : IsNumeral text) :
    normalizeNumeral? text = some text := by
  have hascii : text.mapM toAscii? = some text := by
    have : ∀ c ∈ text, toAscii? c = some c := by
      intro c hc
      rcases h.digit_or_point hc with hd | rfl
      · have := bounds_of_isDigit hd
        rw [toAscii?, if_pos (by omega)]
      · rfl
    clear h
    induction text with
    | nil => rfl
    | cons c rest ih =>
      rw [List.mapM_cons, this c List.mem_cons_self,
        ih fun d hd => this d (List.mem_cons_of_mem _ hd)]
      rfl
  have hfront : text.dropWhile isBlank = text := by
    obtain ⟨c, rest, rfl, hc⟩ := h.exists_cons
    rw [List.dropWhile_cons, isBlank_of_isDigit hc]
    rfl
  have hback : (text.reverse.dropWhile isBlank).reverse = text := by
    obtain ⟨rest, c, rfl, hc⟩ := h.exists_concat
    rw [List.reverse_append, List.reverse_singleton, List.singleton_append, List.dropWhile_cons,
      isBlank_of_isDigit hc]
    simp
  simp only [normalizeNumeral?, hascii, Option.bind_eq_bind, Option.bind_some, hfront, hback,
    Option.pure_def]

/-- Where there is no underscore, none is dropped. -/
theorem dropUnderscores?_of_not_mem {text : List Char} (h : '_' ∉ text) :
    dropUnderscores? text = some text := by
  fun_induction dropUnderscores? text with
  | case1 => rfl
  | case2 => simp at h
  | case3 => simp at h
  | case4 => simp at h
  | case5 => simp at h
  | case6 c rest _ _ _ ih => rw [ih (fun hr => h (List.mem_cons_of_mem _ hr))]; rfl

/-- A text that starts with a digit has no sign. -/
theorem splitSign_cons_of_isDigit {c : Char} {rest : List Char} (h : c.isDigit = true) :
    splitSign (c :: rest) = (false, c :: rest) := by
  unfold splitSign
  split
  · next heq => obtain ⟨rfl, -⟩ := List.cons.inj heq; exact absurd h (by decide)
  · next heq => obtain ⟨rfl, -⟩ := List.cons.inj heq; exact absurd h (by decide)
  · rfl

/-- A text that starts with a digit names nothing. -/
theorem ofList_map_toLower_ne {c : Char} {rest : List Char} (h : c.isDigit = true) {word : String}
    (hw : word.toList.head?.any Char.isDigit = false) :
    String.ofList ((c :: rest).map Char.toLower) ≠ word := by
  rintro rfl
  have hb := bounds_of_isDigit h
  have hlow : c.toLower = c := by
    rw [Char.toLower, dif_neg]
    rintro ⟨h1, -⟩
    have : 65 ≤ c.toNat := UInt32.le_iff_toNat_le.1 h1
    omega
  simp [hlow, h] at hw

/-- The general reader takes a numeral apart at its point, as `ofNumber` does. -/
theorem readDecimal?_of_isNumeral {text : List Char} (h : IsNumeral text) :
    readDecimal? text = some (ofNumber text) := by
  rcases h with h | ⟨whole, fraction, hw, hf, rfl⟩
  · have htake : text.takeWhile Char.isDigit = text := List.takeWhile_eq_self_iff.2 h.2
    have hdrop : text.dropWhile Char.isDigit = [] := List.dropWhile_eq_nil_iff.2 h.2
    simp [readDecimal?, ofNumber, List.span_eq_takeWhile_dropWhile, htake, hdrop, readScale?, h.1]
  · -- The point ends the digits before it, and nothing ends those after it.
    have htake : (whole ++ '.' :: fraction).takeWhile Char.isDigit = whole := by
      rw [List.takeWhile_append_of_pos hw.2]
      simp [show Char.isDigit '.' = false from rfl]
    have hdrop : (whole ++ '.' :: fraction).dropWhile Char.isDigit = '.' :: fraction := by
      rw [List.dropWhile_append_of_pos hw.2]
      simp [show Char.isDigit '.' = false from rfl]
    have hftake : fraction.takeWhile Char.isDigit = fraction := List.takeWhile_eq_self_iff.2 hf.2
    have hfdrop : fraction.dropWhile Char.isDigit = [] := List.dropWhile_eq_nil_iff.2 hf.2
    simp [readDecimal?, ofNumber, List.span_eq_takeWhile_dropWhile, htake, hdrop, hftake, hfdrop,
      readScale?, hw.1]

/-- **A number token carries the double that its text is read as.** -/
theorem readFloat?_of_isNumeral {text : List Char} (h : IsNumeral text) :
    readFloat? (String.ofList text) = some (ofNumber text).toFloat := by
  have hu : '_' ∉ text := by
    intro hm
    rcases h.digit_or_point hm with hd | hd
    · revert hd; decide
    · revert hd; decide
  obtain ⟨c, rest, rfl, hc⟩ := h.exists_cons
  have hinf : String.ofList ((c :: rest).map Char.toLower) ≠ "inf" :=
    ofList_map_toLower_ne hc (by decide)
  have hinfinity : String.ofList ((c :: rest).map Char.toLower) ≠ "infinity" :=
    ofList_map_toLower_ne hc (by decide)
  have hnan : String.ofList ((c :: rest).map Char.toLower) ≠ "nan" :=
    ofList_map_toLower_ne hc (by decide)
  have hmag : readMagnitude? (c :: rest) = some (ofNumber (c :: rest)).toFloat := by
    simp only [readMagnitude?, hinf, hinfinity, hnan, or_self, if_false,
      readDecimal?_of_isNumeral h, Option.map_some]
  simp only [readFloat?, String.toList_ofList, normalizeNumeral?_of_isNumeral h,
    dropUnderscores?_of_not_mem hu, splitSign_cons_of_isDigit hc, hmag, Option.bind_eq_bind,
    Option.bind_some, Option.pure_def, Bool.false_eq_true, if_false]

end Decimal

end Lox
