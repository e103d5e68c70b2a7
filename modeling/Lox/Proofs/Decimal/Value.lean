import Lox.Proofs.Binary64.Nearest
/-!
# The values of decimals

A decimal has a rational value, its digits say how large it is
(`value_bounds`), and the double nearest to it is that of the magnitude in
whose interval the value lies (`toFloat_eq`). The shortest decimal for a
magnitude lies in the magnitude's interval, so it reads back
(`toFloat_of_value`).
-/

namespace Lox.Decimal

open Binary64

/-! ## Digits -/

/-- The value of a row of digits and another one. -/
theorem valueOfDigits_append (a b : List Char) :
    valueOfDigits (a ++ b) = 10 ^ b.length * valueOfDigits a + valueOfDigits b := by
  show Nat.ofDigitChars 10 (a ++ b) 0 = _
  rw [Nat.ofDigitChars_append, Nat.ofDigitChars_eq_ofDigitChars_zero]
  rfl

/-- Zeros are worth nothing. -/
@[simp]
theorem valueOfDigits_zeros (n : Nat) : valueOfDigits (List.replicate n '0') = 0 := by
  show Nat.ofDigitChars 10 (List.replicate n '0') 0 = 0
  simp

/-- The digits of a number have its value. -/
@[simp]
theorem valueOfDigits_toDigits (n : Nat) : valueOfDigits (Nat.toDigits 10 n) = n :=
  Nat.ofDigitChars_ten_toDigits

/-- Digits are worth less than a one in front of them. -/
theorem valueOfDigits_lt {digits : List Char} (h : ∀ c ∈ digits, c.isDigit = true) :
    valueOfDigits digits < 10 ^ digits.length := by
  induction digits with
  | nil => decide
  | cons c rest ih =>
    have hrest := ih fun d hd => h d (List.mem_cons_of_mem _ hd)
    have hc : valueOfDigits [c] ≤ 9 := by
      have hdigit := h c List.mem_cons_self
      simp only [Char.isDigit, Bool.and_eq_true, decide_eq_true_eq] at hdigit
      have hnine : c.toNat ≤ 57 := UInt32.le_iff_toNat_le.1 hdigit.2
      show 10 * 0 + (c.toNat - 48) ≤ 9
      omega
    calc valueOfDigits (c :: rest)
        = 10 ^ rest.length * valueOfDigits [c] + valueOfDigits rest := valueOfDigits_append [c] rest
      _ < 10 ^ rest.length * 9 + 10 ^ rest.length :=
        add_lt_add_of_le_of_lt (Nat.mul_le_mul_left _ hc) hrest
      _ = 10 ^ (c :: rest).length := by rw [List.length_cons, Nat.pow_succ]; omega

/-- Only zero has a zero in front. -/
theorem head_toDigits_ne {n : Nat} (hn : 0 < n) : (Nat.toDigits 10 n).head? ≠ some '0' := by
  induction n using Nat.strongRecOn with
  | ind n ih =>
    by_cases hlt : n < 10
    · rw [Nat.toDigits_of_lt_base hlt]
      interval_cases n <;> decide
    · rw [Nat.toDigits_of_base_le (by omega) (by omega),
        List.head?_append_of_ne_nil _ Nat.toDigits_ne_nil]
      exact ih (n / 10) (by omega) (by omega)

/-- **A number has as many digits** as the least power of ten above it. -/
theorem length_toDigits_bounds {n : Nat} (hn : 0 < n) :
    10 ^ ((Nat.toDigits 10 n).length - 1) ≤ n ∧ n < 10 ^ (Nat.toDigits 10 n).length := by
  have hpos : 0 < (Nat.toDigits 10 n).length := Nat.length_toDigits_pos
  refine ⟨?_, (Nat.length_toDigits_le_iff (by omega) hpos).1 le_rfl⟩
  by_contra hlt
  by_cases hone : (Nat.toDigits 10 n).length = 1
  · rw [hone] at hlt
    omega
  · have := (Nat.length_toDigits_le_iff (b := 10) (by omega) (by omega)).2 (not_le.1 hlt)
    omega

/-! ## Values -/

/-- The value of a decimal. -/
def value (d : Decimal) : ℚ :=
  d.coefficient * 10 ^ d.exponent

/-- **The place of the point says how large a decimal is.** -/
theorem value_bounds {d : Decimal} (h : 0 < d.coefficient) :
    10 ^ (d.point - 1) ≤ d.value ∧ d.value < 10 ^ d.point := by
  obtain ⟨hlow, hhigh⟩ := length_toDigits_bounds h
  have hlen : 0 < d.digits.length := Nat.length_toDigits_pos
  have hten : (10 : ℚ) ≠ 0 := by norm_num
  have hpos : (0 : ℚ) < 10 ^ d.exponent := by positivity
  constructor
  · have hpow : (10 : ℚ) ^ (d.point - 1) = 10 ^ (d.digits.length - 1) * 10 ^ d.exponent := by
      rw [← zpow_natCast, ← zpow_add₀ hten, point]
      congr 1
      omega
    rw [hpow, value]
    gcongr
    exact_mod_cast hlow
  · rw [point, zpow_add₀ hten, zpow_natCast, value]
    gcongr
    exact_mod_cast hhigh

/-- Zeros at the end of the coefficient change nothing. -/
theorem value_normalize (d : Decimal) : d.normalize.value = d.value := by
  fun_induction normalize d with
  | case1 d h ih =>
    rw [ih, value, value, zpow_add₀ (by norm_num)]
    have hten : (d.coefficient : ℚ) = (d.coefficient / 10 : Nat) * 10 := by
      exact_mod_cast (Nat.div_mul_cancel (Nat.dvd_of_mod_eq_zero h.2)).symm
    rw [hten]
    ring
  | case2 => rfl

/-- After that the coefficient has none, unless it is zero. -/
theorem coefficient_normalize {d : Decimal} (h : d.normalize.coefficient % 10 = 0) :
    d.normalize.coefficient = 0 := by
  fun_induction normalize d with
  | case1 d _ ih => exact ih h
  | case2 d hd =>
    by_contra hne
    exact hd ⟨hne, h⟩

/-- Beyond all doubles. -/
theorem two_pow_lt_ten_pow : (2 : ℚ) ^ (1024 : Int) < 10 ^ (310 : Int) := by
  have h : 2 ^ 1024 < 10 ^ 310 := by decide +kernel
  exact_mod_cast h

/-- Below half of the least double. -/
theorem ten_pow_lt_two_pow : (10 : ℚ) ^ (-331 : Int) < 2 ^ (-1075 : Int) := by
  have h : 2 ^ 1075 < 10 ^ 331 := by decide +kernel
  have h : (2 : ℚ) ^ 1075 < 10 ^ 331 := by exact_mod_cast h
  rw [zpow_neg, zpow_neg]
  exact inv_strictAnti₀ (by positivity) h

/-- **The double nearest to a decimal** is that of the magnitude in whose
interval its value lies. -/
theorem toFloat_eq {d : Decimal} {m : Nat} {q : Int} (hmag : IsMagnitude m q) (hm : 0 < m)
    (h : Rounds m q d.value) : d.toFloat = Float.ofBits (UInt64.ofNat (encoding m q)) := by
  obtain ⟨hlow, hhigh, -, -⟩ := h.bounds hm
  have hone : (1 : ℚ) ≤ m := by exact_mod_cast hm
  have hpos : (0 : ℚ) < 2 ^ q := by positivity
  have hcoefficient : 0 < d.coefficient := by
    rcases Nat.eq_zero_or_pos d.coefficient with hzero | h
    · rw [value, hzero, Nat.cast_zero, zero_mul] at hlow
      nlinarith
    · exact h
  obtain ⟨hleast, hmost⟩ := value_bounds hcoefficient
  -- All doubles lie between the two powers of ten beyond which none is computed.
  have htop : ¬ 310 < d.point := by
    intro hpoint
    have hvalue : d.value < 2 ^ (1024 : Int) := by
      have hm53 : (m : ℚ) + 1 / 2 < 2 ^ 53 := by
        have : (m : ℚ) + 1 ≤ 2 ^ 53 := by exact_mod_cast hmag.mantissa_lt
        linarith
      calc d.value ≤ (m + 1 / 2) * 2 ^ q := hhigh
        _ < 2 ^ 53 * 2 ^ q := mul_lt_mul_of_pos_right hm53 hpos
        _ = 2 ^ (q + 53) := (two_zpow_add q 53).symm
        _ ≤ 2 ^ (1024 : Int) := zpow_le_zpow_right₀ one_le_two (by have := hmag.exponent_le; omega)
    refine lt_asymm two_pow_lt_ten_pow (lt_of_le_of_lt ?_ hvalue)
    exact (zpow_le_zpow_right₀ (by norm_num) (by omega)).trans hleast
  have hbottom : ¬ d.point < -330 := by
    intro hpoint
    have hvalue : 2 ^ (-1075 : Int) ≤ d.value := by
      calc (2 : ℚ) ^ (-1075 : Int) ≤ 2 ^ (q - 1) :=
            zpow_le_zpow_right₀ one_le_two (by have := hmag.le_exponent; omega)
        _ = 2 ^ q / 2 := by rw [zpow_sub₀ two_ne_zero, zpow_one]
        _ ≤ (m - 1 / 2) * 2 ^ q := by nlinarith
        _ ≤ d.value := hlow
    refine lt_asymm ten_pow_lt_two_pow (lt_of_le_of_lt hvalue (hmost.trans_le ?_))
    exact zpow_le_zpow_right₀ (by norm_num) (by omega)
  have hratio : ((d.coefficient * 10 ^ d.exponent.toNat : Nat) : ℚ)
      / (10 ^ (-d.exponent).toNat : Nat) = d.value := by
    rw [value, zpow_eq_div (by norm_num)]
    push_cast
    ring
  simp only [toFloat, Nat.pow_eq, if_neg hcoefficient.ne', if_neg htop, if_neg hbottom]
  exact nearest_eq hmag hm (by positivity) (by positivity) (by rwa [hratio])

/-! ## The shortest decimal -/

/-- The test of an interval in terms of numbers. -/
theorem holds_iff {m : Nat} {q : Int} {num den : Nat} (hden : 0 < den) :
    (RoundingInterval.around m q).holds num den = true
      ↔ Rounds m q (num / den * 2 ^ (q - 2)) := by
  have hd : (0 : ℚ) < den := by exact_mod_cast hden
  have hunit : (0 : ℚ) < 2 ^ (q - 2) := by positivity
  simp only [Rounds, mul_le_mul_iff_left₀ hunit, mul_lt_mul_iff_left₀ hunit, le_div_iff₀ hd,
    div_le_iff₀ hd, lt_div_iff₀ hd, div_lt_iff₀ hd]
  generalize RoundingInterval.around m q = i
  norm_cast
  rw [RoundingInterval.holds]
  cases i.closed with
  | true => simp
  | false =>
    simp only [Bool.false_eq_true, if_false, Bool.and_eq_true, decide_eq_true_eq, forall_const]
    exact ⟨fun h => ⟨h.1.le, h.2.le, h⟩, fun h => h.2.2⟩

/-- A decimal on a grid, in the units of an interval. -/
theorem value_grid (q k : Int) (n : Nat) :
    ((n * (2 ^ (2 - q).toNat * 10 ^ k.toNat) : Nat) : ℚ)
        / (2 ^ (q - 2).toNat * 10 ^ (-k).toNat : Nat) * 2 ^ (q - 2) = value ⟨n, k⟩ := by
  rw [value, zpow_eq_div two_ne_zero (q - 2), zpow_eq_div (by norm_num : (10 : ℚ) ≠ 0) k,
    neg_sub]
  push_cast
  field_simp

/-- What is found on a grid rounds to the magnitude. -/
theorem rounds_of_onGrid? {m : Nat} {q k : Int} {d : Decimal} (h : onGrid? m q k = some d) :
    Rounds m q d.value := by
  have hholds : ∀ n, (RoundingInterval.around m q).holds
      (n * (2 ^ (2 - q).toNat * 10 ^ k.toNat)) (2 ^ (q - 2).toNat * 10 ^ (-k).toNat) = true →
      Rounds m q (value ⟨n, k⟩) := by
    intro n hn
    rw [← value_grid]
    exact (holds_iff (by positivity)).1 hn
  simp only [onGrid?, Nat.pow_eq] at h
  generalize (RoundingInterval.around m q).value * (2 ^ (q - 2).toNat * 10 ^ (-k).toNat)
    / (2 ^ (2 - q).toNat * 10 ^ k.toNat) = below at h
  split at h
  · next hbelow habove =>
    split_ifs at h with h1 h2 <;> obtain rfl := Option.some.inj h
    · exact hholds _ hbelow
    · exact hholds _ habove
    · -- Of two points just as near the even one is below or above.
      rcases Nat.mod_two_eq_zero_or_one below with h | h <;> rw [h]
      · exact hholds _ hbelow
      · exact hholds _ habove
  · next hbelow _ =>
    obtain rfl := Option.some.inj h
    exact hholds _ hbelow
  · next _ habove =>
    obtain rfl := Option.some.inj h
    exact hholds _ habove
  · cases h

/-- The exact decimal has the magnitude's value. -/
theorem value_exact (m : Nat) (q : Int) : (exact m q).value = m * 2 ^ q := by
  rw [value, exact, zpow_eq_div two_ne_zero q]
  rcases le_total 0 q with hq | hq
  · rw [min_eq_right hq, Int.toNat_eq_zero.2 (by omega : -q ≤ 0)]
    simp [Nat.pow_eq]
  · have hten : (10 : ℚ) ^ (-q).toNat = 2 ^ (-q).toNat * 5 ^ (-q).toNat := by
      rw [← mul_pow]
      norm_num
    rw [min_eq_left hq, zpow_eq_div (by norm_num) q, Int.toNat_eq_zero.2 hq, hten, Nat.pow_eq,
      Nat.pow_eq]
    push_cast
    field_simp

/-- A magnitude lies in its own interval. -/
theorem rounds_self {m : Nat} (hm : 0 < m) (q : Int) : Rounds m q (m * 2 ^ q) := by
  have hunit : (2 : ℚ) ^ q = 4 * 2 ^ (q - 2) := by
    rw [zpow_sub₀ two_ne_zero]
    ring
  have hpos : (0 : ℚ) < 2 ^ (q - 2) := by positivity
  have hlow : ((RoundingInterval.around m q).low : ℚ) < 4 * m := by
    have : (RoundingInterval.around m q).low < 4 * m := by
      simp only [RoundingInterval.around]
      split_ifs <;> omega
    exact_mod_cast this
  have hhigh : (4 * m : ℚ) < (RoundingInterval.around m q).high := by
    have : 4 * m < (RoundingInterval.around m q).high := by
      simp only [RoundingInterval.around]
      omega
    exact_mod_cast this
  have hbetween : ((RoundingInterval.around m q).low : ℚ) * 2 ^ (q - 2) < m * 2 ^ q ∧
      (m : ℚ) * 2 ^ q < (RoundingInterval.around m q).high * 2 ^ (q - 2) := by
    rw [hunit]
    constructor <;> nlinarith
  exact ⟨hbetween.1.le, hbetween.2.le, fun _ => hbetween⟩

/-- **The shortest decimal for a magnitude rounds to it.** -/
theorem rounds_shortest {m : Nat} (hm : 0 < m) (q : Int) : Rounds m q (shortest m q).value := by
  rw [shortest, if_neg hm.ne', value_normalize]
  rcases hfound : (List.range 17).findSome? fun n => onGrid? m q (magnitude m q - (n + 1 : Nat))
    with _ | d
  · rw [Option.getD_none, value_exact]
    exact rounds_self hm q
  · obtain ⟨n, -, hn⟩ := List.exists_of_findSome?_eq_some hfound
    exact rounds_of_onGrid? hn

/-- The shortest decimal for zero is zero, and for nothing else. -/
theorem coefficient_shortest {m : Nat} {q : Int} :
    (shortest m q).coefficient = 0 ↔ m = 0 := by
  refine ⟨fun h => ?_, fun h => by rw [shortest, if_pos h]⟩
  by_contra hm
  have hpos : 0 < m := Nat.pos_of_ne_zero hm
  obtain ⟨hlow, -⟩ := (rounds_shortest hpos q).bounds hpos
  have hone : (1 : ℚ) ≤ m := by exact_mod_cast hpos
  have hunit : (0 : ℚ) < 2 ^ q := by positivity
  rw [value, h, Nat.cast_zero, zero_mul] at hlow
  nlinarith

/-- Zero has no exponent. -/
theorem exponent_shortest {m : Nat} {q : Int} (h : (shortest m q).coefficient = 0) :
    (shortest m q).exponent = 0 := by
  rw [shortest, if_pos (coefficient_shortest.1 h)]

/-- The shortest decimal has no zeros at its end. -/
theorem coefficient_shortest_mod {m : Nat} {q : Int} (h : (shortest m q).coefficient % 10 = 0) :
    (shortest m q).coefficient = 0 := by
  rw [shortest] at h ⊢
  split_ifs at h ⊢ with hm
  · rfl
  · exact coefficient_normalize h

/-- **The shortest decimal reads back**, however it is written. -/
theorem toFloat_of_value {d : Decimal} {m : Nat} {q : Int} (hmag : IsMagnitude m q)
    (h : d.value = (shortest m q).value) :
    d.toFloat = Float.ofBits (UInt64.ofNat (encoding m q)) := by
  rcases Nat.eq_zero_or_pos m with rfl | hm
  · obtain rfl : q = -1074 := hmag.normal.resolve_right (by norm_num)
    have hzero : d.coefficient = 0 := by
      rw [value, value, coefficient_shortest.2 rfl, Nat.cast_zero, zero_mul] at h
      have hunit : (10 : ℚ) ^ d.exponent ≠ 0 := by positivity
      exact_mod_cast (mul_eq_zero.1 h).resolve_right hunit
    rw [toFloat, if_pos hzero]
    decide
  · exact toFloat_eq hmag hm (h ▸ rounds_shortest hm q)

/-- With its sign it is the double that it is the shortest decimal of. -/
theorem signed_toFloat {x : Float} {negative : Bool} {d : Decimal} {m : Nat} {q : Int}
    (hx : form x = .finite negative m q) (h : d.value = (shortest m q).value) :
    signed negative d.toFloat = x := by
  rw [toFloat_of_value (isMagnitude_of_form hx) h]
  have hform := toFloat_form x
  rwa [hx] at hform

end Lox.Decimal
