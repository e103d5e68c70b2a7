import Lox.Decimal.Shortest
import Lox.Proofs.Binary64.Bits
/-!
# The nearest double

A quotient is rounded in two steps: its exponent is found from the powers of two around it, and
the mantissa by division to the nearest whole number, ties to even. `Rounds` is the property that
the result has: a magnitude and a rational number that lies in its interval. That is enough to
know the result, since a number lies in the interval of one magnitude only (`nearest_eq`).
-/

namespace Lox.Binary64

open Decimal (RoundingInterval)

/-! ## Powers with whole exponents -/

/-- A power with a whole exponent is a quotient of powers with natural
ones. -/
theorem zpow_eq_div {b : ℚ} (hb : b ≠ 0) (k : Int) : b ^ k = b ^ k.toNat / b ^ (-k).toNat := by
  calc b ^ k = b ^ ((k.toNat : Int) - ((-k).toNat : Int)) := by rw [Int.toNat_sub_toNat_neg]
    _ = b ^ k.toNat / b ^ (-k).toNat := by rw [zpow_sub₀ hb, zpow_natCast, zpow_natCast]

/-- A power of two some places up. -/
theorem two_zpow_add (q : Int) (n : Nat) : (2 : ℚ) ^ (q + n) = 2 ^ n * 2 ^ q := by
  rw [add_comm, zpow_add₀ two_ne_zero, zpow_natCast]

/-- **The exponent of a ratio** is that of the greatest power of two that
it reaches. -/
theorem floorLog2_spec {num den : Nat} (hnum : 0 < num) (hden : 0 < den) :
    (2 : ℚ) ^ floorLog2 num den ≤ num / den ∧ (num : ℚ) / den < 2 ^ (floorLog2 num den + 1) := by
  have hd : (0 : ℚ) < den := by exact_mod_cast hden
  have hnumLow : (2 : ℚ) ^ num.log2 ≤ num := by exact_mod_cast Nat.log2_self_le hnum.ne'
  have hnumHigh : (num : ℚ) < 2 ^ (num.log2 + 1) := by exact_mod_cast Nat.lt_log2_self
  have hdenLow : (2 : ℚ) ^ den.log2 ≤ den := by exact_mod_cast Nat.log2_self_le hden.ne'
  have hdenHigh : (den : ℚ) < 2 ^ (den.log2 + 1) := by exact_mod_cast Nat.lt_log2_self
  let guess : Int := (num.log2 : Int) - den.log2
  have hlow : (2 : ℚ) ^ (guess - 1) ≤ num / den := by
    rw [le_div_iff₀ hd]
    calc (2 : ℚ) ^ (guess - 1) * den
        ≤ 2 ^ (guess - 1) * 2 ^ (den.log2 + 1) := by gcongr
      _ = 2 ^ num.log2 := by
          rw [← zpow_natCast, ← zpow_natCast, ← zpow_add₀ two_ne_zero]
          congr 1
          omega
      _ ≤ num := hnumLow
  have hhigh : (num : ℚ) / den < 2 ^ (guess + 1) := by
    rw [div_lt_iff₀ hd]
    calc (num : ℚ) < 2 ^ (num.log2 + 1) := hnumHigh
      _ = 2 ^ (guess + 1) * 2 ^ den.log2 := by
          rw [← zpow_natCast, ← zpow_natCast, ← zpow_add₀ two_ne_zero]
          congr 1
          omega
      _ ≤ 2 ^ (guess + 1) * den := by gcongr
  have htest : den * Nat.pow 2 guess.toNat ≤ num * Nat.pow 2 (-guess).toNat ↔
      (2 : ℚ) ^ guess ≤ num / den := by
    rw [zpow_eq_div two_ne_zero, div_le_div_iff₀ (by positivity) hd, mul_comm]
    norm_cast
  rw [floorLog2]
  split_ifs with h
  · exact ⟨htest.1 h, hhigh⟩
  · exact ⟨hlow, by simpa [guess] using not_le.1 fun hle => h (htest.2 hle)⟩

/-- **A quotient is rounded** to the whole number that is less than a half
away from it, or just a half away and even. -/
theorem roundDiv_eq {num den k : Nat} (hden : 0 < den) (hlow : (k : ℚ) - 1 / 2 ≤ num / den)
    (hhigh : (num : ℚ) / den ≤ k + 1 / 2)
    (hodd : k % 2 = 1 → (k : ℚ) - 1 / 2 < num / den ∧ (num : ℚ) / den < k + 1 / 2) :
    roundDiv num den = k := by
  have hd : (0 : ℚ) < den := by exact_mod_cast hden
  -- The bounds in natural numbers, in terms of the quotient and its rest.
  have hrest : num % den < den := Nat.mod_lt _ hden
  have hnum : (num : ℚ) = den * (num / den : Nat) + (num % den : Nat) := by
    exact_mod_cast (Nat.div_add_mod num den).symm
  simp only [le_div_iff₀ hd, div_le_iff₀ hd, lt_div_iff₀ hd, div_lt_iff₀ hd, hnum]
    at hlow hhigh hodd
  rw [roundDiv]
  generalize num / den = w at *
  generalize num % den = r at *
  have hr : (r : ℚ) < den := by exact_mod_cast hrest
  have hk : k = w ∨ k = w + 1 := by
    have hle : (w : ℚ) < k + 1 := by nlinarith
    have hge : (k : ℚ) < w + 2 := by nlinarith
    have hle : w < k + 1 := by exact_mod_cast hle
    have hge : k < w + 2 := by exact_mod_cast hge
    omega
  rcases hk with rfl | rfl
  · have hhalf : 2 * r ≤ den := by
      have : (2 : ℚ) * r ≤ den := by linarith
      exact_mod_cast this
    have hstrict : k % 2 = 1 → 2 * r < den := fun hk => by
      have : (2 : ℚ) * r < den := by linarith [(hodd hk).2]
      exact_mod_cast this
    split_ifs <;> omega
  · push_cast at hlow hodd
    have hhalf : den ≤ 2 * r := by
      have : (den : ℚ) ≤ 2 * r := by linarith
      exact_mod_cast this
    have hstrict : (w + 1) % 2 = 1 → den < 2 * r := fun hk => by
      have : (den : ℚ) < 2 * r := by linarith [(hodd hk).1]
      exact_mod_cast this
    split_ifs <;> omega

/-! ## The interval of a double -/

/-- The numbers that round to `m · 2 ^ q`: those in the interval around it,
with its ends if it is closed. -/
def Rounds (m : Nat) (q : Int) (v : ℚ) : Prop :=
  let i := RoundingInterval.around m q
  i.low * 2 ^ (q - 2) ≤ v ∧ v ≤ i.high * 2 ^ (q - 2) ∧
    (i.closed = false → i.low * 2 ^ (q - 2) < v ∧ v < i.high * 2 ^ (q - 2))

/-- The interval in terms of the last place: half of it to both sides, and
no more than a quarter below the least normal mantissa. -/
theorem Rounds.bounds {m : Nat} {q : Int} {v : ℚ} (h : Rounds m q v) (hm : 0 < m) :
    (m - 1 / 2) * 2 ^ q ≤ v ∧ v ≤ (m + 1 / 2) * 2 ^ q ∧
      (m % 2 = 1 → (m - 1 / 2) * 2 ^ q < v ∧ v < (m + 1 / 2) * 2 ^ q) ∧
      (m = 2 ^ 52 → q ≠ -1074 → (m - 1 / 4) * 2 ^ q ≤ v) := by
  obtain ⟨hlow, hhigh, hopen⟩ := h
  have hunit : (2 : ℚ) ^ (q - 2) = 2 ^ q / 4 := by
    rw [zpow_sub₀ two_ne_zero]
    norm_num
  have hpos : (0 : ℚ) < 2 ^ q := by positivity
  have hsub : ∀ n ≤ 4, ((4 * m - n : Nat) : ℚ) = 4 * m - n := fun n hn => by
    rw [Nat.cast_sub (by omega)]
    push_cast
    rfl
  simp only [RoundingInterval.around, hunit, Nat.pow_eq, beq_eq_false_iff_ne] at hlow hhigh hopen
  push_cast at hhigh
  have hodd : m % 2 = 1 → v < (m + 1 / 2) * 2 ^ q := fun hm => by
    have := (hopen (by omega)).2
    push_cast at this
    linarith
  by_cases hedge : m = 2 ^ 52 ∧ q ≠ -1074
  · rw [if_pos hedge, hsub 1 (by omega)] at hlow
    push_cast at hlow
    have heven : m % 2 = 0 := by omega
    exact ⟨by linarith, by linarith, by omega, fun _ _ => by linarith⟩
  · rw [if_neg hedge, hsub 2 (by omega)] at hlow hopen
    push_cast at hlow hopen
    refine ⟨by linarith, by linarith, fun hm => ⟨?_, hodd hm⟩, fun h1 h2 => absurd ⟨h1, h2⟩ hedge⟩
    have := (hopen (by omega)).1
    linarith

/-- The exponent of a ratio is the only one that fits it. -/
theorem floorLog2_eq {num den : Nat} (hnum : 0 < num) (hden : 0 < den) {f : Int}
    (hlow : (2 : ℚ) ^ f ≤ num / den) (hhigh : (num : ℚ) / den < 2 ^ (f + 1)) :
    floorLog2 num den = f := by
  obtain ⟨hlow', hhigh'⟩ := floorLog2_spec hnum hden
  have h1 := (zpow_lt_zpow_iff_right₀ one_lt_two).1 (hlow.trans_lt hhigh')
  have h2 := (zpow_lt_zpow_iff_right₀ one_lt_two).1 (hlow'.trans_lt hhigh)
  omega

/-- The bits of a ratio whose last place is known. -/
theorem nearest_of_exponent {num den k : Nat} {q : Int} (hnum : 0 < num) (hden : 0 < den)
    (hq : max (floorLog2 num den - 52) (-1074) = q) (hlow : (k - 1 / 2) * 2 ^ q ≤ (num : ℚ) / den)
    (hhigh : (num : ℚ) / den ≤ (k + 1 / 2) * 2 ^ q)
    (hodd : k % 2 = 1 →
      (k - 1 / 2) * 2 ^ q < (num : ℚ) / den ∧ (num : ℚ) / den < (k + 1 / 2) * 2 ^ q)
    (hbits : encoding k q ≤ infinityBits) :
    nearest num den = Float.ofBits (UInt64.ofNat (encoding k q)) := by
  have hpos : (0 : ℚ) < 2 ^ q := by positivity
  have hscaled : ((num * 2 ^ (-q).toNat : Nat) : ℚ) / (den * 2 ^ q.toNat : Nat)
      = num / den / 2 ^ q := by
    rw [zpow_eq_div two_ne_zero q]
    push_cast
    field_simp
  have hround : roundDiv (num * 2 ^ (-q).toNat) (den * 2 ^ q.toNat) = k := by
    refine roundDiv_eq (by positivity) ?_ ?_ fun hk => ?_
    · rw [hscaled, le_div_iff₀ hpos]
      exact hlow
    · rw [hscaled, div_le_iff₀ hpos]
      exact hhigh
    · rw [hscaled, lt_div_iff₀ hpos, div_lt_iff₀ hpos]
      exact hodd hk
  simp only [nearest, Nat.pow_eq, hq, hround, if_neg hnum.ne']
  rw [← encoding, min_eq_right hbits]

/-- **The double nearest to a ratio** is the one in whose interval the
ratio lies. -/
theorem nearest_eq {m num den : Nat} {q : Int} (hmag : IsMagnitude m q) (hm : 0 < m)
    (hnum : 0 < num) (hden : 0 < den) (h : Rounds m q (num / den)) :
    nearest num den = Float.ofBits (UInt64.ofNat (encoding m q)) := by
  obtain ⟨hlow, hhigh, hodd, hedge⟩ := h.bounds hm
  obtain ⟨hlt, hle, hge, hnormal⟩ := hmag
  have hpos : (0 : ℚ) < 2 ^ q := by positivity
  have hbits : encoding m q ≤ infinityBits := by
    rw [encoding, infinityBits, Nat.pow_eq]
    omega
  have hltm : (m : ℚ) + 1 / 2 < 2 ^ 53 := by
    have : (m : ℚ) + 1 ≤ 2 ^ 53 := by exact_mod_cast hlt
    linarith
  by_cases hbelow : q ≠ -1074 ∧ (num : ℚ) / den < 2 ^ 52 * 2 ^ q
  · -- The ratio lies below a power of two, where the last place is worth half as much.
    obtain ⟨hq, hbelow⟩ := hbelow
    have hm : m = 2 ^ 52 := by
      have hlt : (m : ℚ) < 2 ^ 52 + 1 := by
        have : (m - 1 / 2 : ℚ) * 2 ^ q < 2 ^ 52 * 2 ^ q := hlow.trans_lt hbelow
        have := lt_of_mul_lt_mul_right this hpos.le
        linarith
      have hlt : m < 2 ^ 52 + 1 := by exact_mod_cast hlt
      omega
    have hcast : (m : ℚ) = 2 ^ 52 := by exact_mod_cast hm
    obtain ⟨k, hk⟩ : ∃ k : Nat, k = 2 ^ 53 := ⟨_, rfl⟩
    have hkcast : (k : ℚ) = 2 ^ 53 := by exact_mod_cast hk
    have hedge := hedge hm hq
    rw [hcast] at hedge
    have hhalf : (2 : ℚ) ^ (q - 1) = 2 ^ q / 2 := by
      rw [zpow_sub₀ two_ne_zero, zpow_one]
    have hlog : floorLog2 num den = q + 51 := by
      refine floorLog2_eq hnum hden ?_ ?_
      · have hpow : (2 : ℚ) ^ (q + 51) = 2 ^ 51 * 2 ^ q := two_zpow_add q 51
        rw [hpow]
        nlinarith
      · have hpow : (2 : ℚ) ^ (q + 51 + 1) = 2 ^ 52 * 2 ^ q := by
          rw [add_assoc]
          exact two_zpow_add q 52
        rwa [hpow]
    have hsame : encoding k (q - 1) = encoding m q := by
      rw [encoding, encoding]
      omega
    rw [← hsame] at hbits ⊢
    refine nearest_of_exponent hnum hden (by rw [hlog]; omega) ?_ ?_ (by omega) hbits
    · rw [hhalf, hkcast]
      linarith
    · rw [hhalf, hkcast]
      linarith
  · have hlog : max (floorLog2 num den - 52) (-1074) = q := by
      obtain ⟨hlogLow, hlogHigh⟩ := floorLog2_spec hnum hden
      have htop : floorLog2 num den < q + 53 := by
        have hpow : (2 : ℚ) ^ (q + 53) = 2 ^ 53 * 2 ^ q := two_zpow_add q 53
        have hv : (num : ℚ) / den < 2 ^ (q + 53) := by
          rw [hpow]
          exact hhigh.trans_lt (mul_lt_mul_of_pos_right hltm hpos)
        exact (zpow_lt_zpow_iff_right₀ one_lt_two).1 (hlogLow.trans_lt hv)
      rcases not_and_or.1 hbelow with hq | hv
      · omega
      · have hpow : (2 : ℚ) ^ (q + 52) = 2 ^ 52 * 2 ^ q := two_zpow_add q 52
        rw [not_lt, ← hpow] at hv
        have := (zpow_lt_zpow_iff_right₀ one_lt_two).1 (hv.trans_lt hlogHigh)
        omega
    exact nearest_of_exponent hnum hden hlog hlow hhigh hodd hbits

end Lox.Binary64
