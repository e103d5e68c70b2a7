import Lox.Binary64
import Mathlib
/-!
# Doubles and their bits

A double is its encoding, which is made of a sign, eleven bits of exponent
and fifty-two of fraction. Reading an encoding and writing it again gives
it back, unless it is not a number (`pack_unpack`), and negation changes
the sign alone. So a double is determined by its form (`toFloat_form`), which
has a magnitude if the double is finite (`exists_form_of_isFinite`).
-/

namespace Lox.Binary64

open Float.Model (Format UnpackedFloat)
open Float.Model.UnpackedFloat

/-- A double is its bits. -/
theorem eq_of_toBits {x y : Float} (h : x.toBits.toNat = y.toBits.toNat) : x = y := by
  obtain ⟨⟨a, ha⟩⟩ := x
  obtain ⟨⟨b, hb⟩⟩ := y
  obtain rfl : a = b := UInt64.toNat_inj.1 h
  rfl

/-! ## The three fields -/

/-- The fields of an encoding add up to it. -/
theorem toNat_packComponents (s : Sign) (e : BitVec 11) (f : BitVec 52) :
    (packComponents Format.binary64 s e f).toNat
      = s.toBitVec.toNat * 2 ^ 63 + e.toNat * 2 ^ 52 + f.toNat := by
  have he := e.isLt
  have hf := f.isLt
  rw [packComponents, BitVec.toNat_append, BitVec.toNat_append, ← Nat.shiftLeft_add_eq_or_of_lt hf,
    ← Nat.shiftLeft_add_eq_or_of_lt he, Nat.shiftLeft_eq, Nat.shiftLeft_eq]
  ring

/-- The fraction is the last fifty-two bits. -/
theorem toNat_unpackMantissa (b : BitVec 64) :
    (@unpackMantissa Format.binary64 b).toNat = b.toNat % 2 ^ 52 := by
  simp [unpackMantissa]

/-- The exponent is the eleven bits before them. -/
theorem toNat_unpackExponent (b : BitVec 64) :
    (@unpackExponent Format.binary64 b).toNat = b.toNat / 2 ^ 52 % 2 ^ 11 := by
  simp [unpackExponent, Nat.shiftRight_eq_div_pow]

/-- The sign is the first bit. -/
theorem toNat_unpackSign (b : BitVec 64) :
    (@unpackSign Format.binary64 b).toNat = b.toNat / 2 ^ 63 := by
  have hb := b.isLt
  simp only [unpackSign, BitVec.toNat_cast, BitVec.extractLsb_toNat, Nat.shiftRight_eq_div_pow]
  norm_num
  omega

/-- A sign is the bit that it is written as. -/
theorem toBitVec_ofBitVec (b : BitVec 1) : (Sign.ofBitVec b).toBitVec = b := by
  revert b
  decide

/-- The sign of the fields is that of the encoding. -/
theorem unpackSign_packComponents (s : Sign) (e : BitVec 11) (f : BitVec 52) :
    Sign.ofBitVec (@unpackSign Format.binary64 (packComponents Format.binary64 s e f)) = s := by
  have he := e.isLt
  have hf := f.isLt
  have hsign : @unpackSign Format.binary64 (packComponents Format.binary64 s e f) = s.toBitVec := by
    refine BitVec.eq_of_toNat_eq ?_
    rw [toNat_unpackSign, toNat_packComponents]
    omega
  rw [hsign]
  cases s <;> rfl

/-- **An encoding is its three fields.** -/
theorem packComponents_unpack (b : BitVec 64) :
    packComponents Format.binary64 (Sign.ofBitVec (@unpackSign Format.binary64 b))
      (unpackExponent b) (unpackMantissa b) = b := by
  have hb := b.isLt
  refine BitVec.eq_of_toNat_eq ?_
  rw [toNat_packComponents, toBitVec_ofBitVec, toNat_unpackSign, toNat_unpackExponent,
    toNat_unpackMantissa]
  omega

/-! ## Reading and writing -/

/-- Negation changes the sign of the fields alone. -/
theorem neg_unpack (s : Sign) (e : BitVec 11) (f : BitVec 52) :
    (unpack Format.binary64 (packComponents Format.binary64 s e f)).neg
      = unpack Format.binary64 (packComponents Format.binary64 (-s) e f) := by
  simp only [unpack, unpackMantissa_packComponents, unpackExponent_packComponents,
    unpackSign_packComponents]
  split_ifs <;> rfl

/-- A mantissa is its fraction and the leading one. -/
theorem toNat_append_one (f : BitVec 52) : (1#1 ++ f).toNat = 2 ^ 52 + f.toNat := by
  rw [BitVec.toNat_append, ← Nat.shiftLeft_add_eq_or_of_lt f.isLt, Nat.shiftLeft_eq]
  rfl

/-- The leading one gives a mantissa its length. -/
theorem log2_append_one (f : BitVec 52) : (1#1 ++ f).toNat.log2 = 52 := by
  have hf := f.isLt
  rw [toNat_append_one, Nat.log2_eq_iff (by omega)]
  omega

/-- **What is read from a number's fields is written as those fields.** -/
theorem pack_unpack {s : Sign} {e : BitVec 11} {f : BitVec 52} (h : e = -1#11 → f = 0#52) :
    pack Format.binary64
        (unpack Format.binary64 (packComponents Format.binary64 s e f))
      = packComponents Format.binary64 s e f := by
  have hbias : (Format.binary64.exponentBias : Int) = 1023 := rfl
  have hf := f.isLt
  have he := e.isLt
  simp only [unpack, unpackMantissa_packComponents, unpackExponent_packComponents,
    unpackSign_packComponents]
  split_ifs with hinf hzero hsub hzero
  · rw [hinf, hzero]
    rfl
  · exact absurd (h hinf) hzero
  · rw [hsub, hzero]
    rfl
  · -- A subnormal mantissa does not reach the place of the leading one.
    have hlog : f.toNat.log2 < 52 :=
      (Nat.log2_lt fun hnat => hzero (BitVec.eq_of_toNat_eq hnat)).2 hf
    have hexponent : e.toNat = 0 := by rw [hsub]; rfl
    have hbits : Format.binary64.mantissaBits = 53 := rfl
    simp only [pack, hbias, hbits]
    rw [if_neg (by omega), if_neg (by omega), BitVec.ofNat_toNat, BitVec.setWidth_eq, hsub]
  · -- A normal one has it there, and its place is all that is lost in writing.
    have hlog := log2_append_one f
    have hbits : Format.binary64.mantissaBits = 53 := rfl
    have hne : e.toNat ≠ 2047 := fun hnat => hinf (BitVec.eq_of_toNat_eq hnat)
    have hexponent :
        ((e.toNat : Int) - (1023 + (52 : Nat)) + 1023 + (52 : Nat)).toNat = e.toNat := by
      omega
    have hfraction : BitVec.ofNat 52 (1#1 ++ f).toNat = f := by
      refine BitVec.eq_of_toNat_eq ?_
      rw [BitVec.toNat_ofNat, toNat_append_one]
      omega
    simp only [pack, hbias, hbits, hlog, hexponent, hfraction]
    rw [if_neg (by omega), if_pos trivial, BitVec.ofNat_toNat, BitVec.setWidth_eq]

/-! ## Doubles of bits -/

/-- Whether bits are those of a number. -/
def IsNumber (bits : Nat) : Prop :=
  bits / 2 ^ 52 % 2 ^ 11 = 2047 → bits % 2 ^ 52 = 0

/-- The fields of a number's bits are those of a number. -/
theorem IsNumber.fields {b : BitVec 64} (h : IsNumber b.toNat)
    (hexponent : @unpackExponent Format.binary64 b = -1#11) :
    @unpackMantissa Format.binary64 b = 0#52 := by
  refine BitVec.eq_of_toNat_eq ?_
  rw [toNat_unpackMantissa]
  refine h ?_
  rw [← toNat_unpackExponent, hexponent]
  rfl

/-- **A number's bits come back** from the double that they make. -/
theorem toBits_ofBits {n : UInt64} (h : IsNumber n.toNat) :
    (Float.ofBits n).toBits.toNat = n.toNat := by
  have hpack : (Float.ofBits n).toBits.toBitVec = n.toBitVec := by
    show pack Format.binary64 (unpack Format.binary64 n.toBitVec) = n.toBitVec
    rw [← packComponents_unpack n.toBitVec]
    exact pack_unpack h.fields
  exact congrArg BitVec.toNat hpack

/-- **Negation changes the first bit** of a number. -/
theorem toBits_neg {x : Float} (hsign : x.toBits.toNat < 2 ^ 63) (h : IsNumber x.toBits.toNat) :
    (-x).toBits.toNat = 2 ^ 63 + x.toBits.toNat := by
  let b := x.toBits.toBitVec
  have hb : x.toBits.toNat = b.toNat := rfl
  have hpositive : Sign.ofBitVec (@unpackSign Format.binary64 b) = .positive := by
    have hzero : @unpackSign Format.binary64 b = 0#1 := by
      refine BitVec.eq_of_toNat_eq ?_
      rw [toNat_unpackSign, ← hb, Nat.div_eq_of_lt hsign]
      rfl
    rw [hzero]
    rfl
  have hpack : (-x).toBits.toBitVec
      = packComponents Format.binary64 .negative (unpackExponent b) (unpackMantissa b) :=
    calc (-x).toBits.toBitVec
        = pack Format.binary64 (unpack Format.binary64 b).neg := rfl
      _ = pack Format.binary64 (unpack Format.binary64 (packComponents Format.binary64 .positive
            (unpackExponent b) (unpackMantissa b))).neg := by
          rw [← hpositive, packComponents_unpack]
      _ = packComponents Format.binary64 .negative (unpackExponent b) (unpackMantissa b) := by
          rw [neg_unpack]
          exact pack_unpack h.fields
  have hnat := congrArg BitVec.toNat hpack
  rw [toNat_packComponents, toNat_unpackExponent, toNat_unpackMantissa] at hnat
  have hone : Sign.negative.toBitVec.toNat = 1 := rfl
  have hneg : (-x).toBits.toNat = (-x).toBits.toBitVec.toNat := rfl
  omega

/-- All bits that are no number's are those of one double. -/
theorem eq_nan {x : Float} (h : ¬ IsNumber x.toBits.toNat) : x = 0.0 / 0.0 := by
  obtain ⟨hexponent, hfraction⟩ := Classical.not_imp.1 h
  have hbits : x.toBits.toBitVec = packedNaN Format.binary64 := by
    refine x.toModel.valid.eq_packedNaN (BitVec.eq_of_toNat_eq ?_) fun hzero => hfraction ?_
    · rw [toNat_unpackExponent]
      exact hexponent
    · have := congrArg BitVec.toNat hzero
      rwa [toNat_unpackMantissa] at this
  have hnan : (0.0 / 0.0 : Float).toBits.toBitVec = packedNaN Format.binary64 := by decide
  exact eq_of_toBits (congrArg BitVec.toNat (hbits.trans hnan.symm))

/-- So a double that is not a number is that one. -/
theorem eq_nan_of_isNaN {x : Float} (h : x.isNaN = true) : x = 0.0 / 0.0 := by
  refine eq_nan fun hnumber => ?_
  have hfields := IsNumber.fields (b := x.toBits.toBitVec) hnumber
  rw [Float.isNaN, Float.Model.isNaN, Float.Model.unpack, unpack] at h
  split_ifs at h with hinf hzero
  · cases h
  · exact hzero (hfields hinf)
  · cases h
  · cases h
  · cases h

/-! ## Forms -/

/-- The magnitudes that finite doubles have, each in one way. -/
structure IsMagnitude (m : Nat) (q : Int) : Prop where
  mantissa_lt : m < 2 ^ 53
  le_exponent : -1074 ≤ q
  exponent_le : q ≤ 971
  normal : q = -1074 ∨ 2 ^ 52 ≤ m

/-- The bits of a magnitude. -/
def encoding (m : Nat) (q : Int) : Nat :=
  (q + 1074).toNat * 2 ^ 52 + m

/-- A double with a sign. -/
def signed (negative : Bool) (x : Float) : Float :=
  if negative then -x else x

/-- The double of a form. -/
def Form.toFloat : Form → Float
  | .nan => 0.0 / 0.0
  | .infinite negative => signed negative infinity
  | .finite negative m q => signed negative (Float.ofBits (UInt64.ofNat (encoding m q)))

/-- What is read off a finite double is a magnitude. -/
theorem isMagnitude_of_form {x : Float} {negative : Bool} {m : Nat} {q : Int}
    (h : form x = .finite negative m q) : IsMagnitude m q := by
  simp only [form, Nat.pow_eq] at h
  split_ifs at h with hinf hzero hsub <;> cases h
  · constructor <;> omega
  · constructor <;> omega

/-- A number is its magnitude's bits with a sign. -/
theorem eq_signed {x : Float} (h : IsNumber x.toBits.toNat) :
    x = signed (decide (2 ^ 63 ≤ x.toBits.toNat))
      (Float.ofBits (UInt64.ofNat (x.toBits.toNat % 2 ^ 63))) := by
  have hlt : x.toBits.toNat < 2 ^ 64 := x.toBits.toNat_lt
  generalize hn : x.toBits.toNat = n at h hlt
  have hof : (UInt64.ofNat (n % 2 ^ 63)).toNat = n % 2 ^ 63 :=
    UInt64.toNat_ofNat_of_lt' (by rw [UInt64.size]; omega)
  have hnumber : IsNumber (n % 2 ^ 63) := by
    rw [IsNumber] at h ⊢
    omega
  have hbits := toBits_ofBits (hof.symm ▸ hnumber)
  rw [hof] at hbits
  refine eq_of_toBits ?_
  by_cases hsign : 2 ^ 63 ≤ n
  · rw [signed, if_pos (by simpa using hsign), toBits_neg (by omega) (by rwa [hbits]), hbits, hn]
    omega
  · rw [signed, if_neg (by simpa using hsign), hbits, hn]
    omega

/-- **A double is determined by its form.** -/
theorem toFloat_form (x : Float) : (form x).toFloat = x := by
  have hlt : x.toBits.toNat < 2 ^ 64 := x.toBits.toNat_lt
  by_cases h : IsNumber x.toBits.toNat
  · have hx := eq_signed h
    rw [IsNumber] at h
    simp only [form, Nat.pow_eq]
    generalize x.toBits.toNat = n at h hx hlt
    split_ifs with hinf hzero hsub
    · have hbits : n % 2 ^ 63 = infinityBits := by
        rw [infinityBits, Nat.pow_eq]
        omega
      rw [Form.toFloat, infinity, ← hbits]
      exact hx.symm
    · exact absurd (h hinf) hzero
    · have hbits : n % 2 ^ 63 = encoding (n % 2 ^ 52) (-1074) := by
        rw [encoding]
        omega
      rw [Form.toFloat, ← hbits]
      exact hx.symm
    · have hbits : n % 2 ^ 63
          = encoding (2 ^ 52 + n % 2 ^ 52) ((n / 2 ^ 52 % 2 ^ 11 : Nat) - 1075) := by
        rw [encoding]
        omega
      rw [Form.toFloat, ← hbits]
      exact hx.symm
  · have hnan : form x = .nan := by
      obtain ⟨hexponent, hfraction⟩ := Classical.not_imp.1 h
      simp only [form, Nat.pow_eq, if_pos hexponent, if_neg hfraction]
    rw [hnan, Form.toFloat, eq_nan h]

/-- Whether a double has a minus. Zero may have one as well. -/
def isNegative (x : Float) : Bool :=
  decide (2 ^ 63 ≤ x.toBits.toNat)

/-- A finite double has a magnitude. -/
theorem exists_form_of_isFinite {x : Float} (h : x.isFinite = true) :
    ∃ m q, form x = .finite (isNegative x) m q := by
  have hx := toFloat_form x
  rcases hform : form x with _ | negative | ⟨negative, m, q⟩
  · rw [← hx, hform] at h
    exact absurd h (by decide +kernel)
  · rw [← hx, hform] at h
    cases negative <;> exact absurd h (by decide +kernel)
  · refine ⟨m, q, ?_⟩
    simp only [form, Nat.pow_eq] at hform
    split_ifs at hform <;> cases hform <;> rfl

end Lox.Binary64
