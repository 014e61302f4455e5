import Mathlib
import Primer.Number.Binary

/-!
# The rational numbers that numbers stand for

`denote` works on the bits of a number.  Here its answers are compared with the sign, the mantissa and the
exponent that the model of double-precision numbers unpacks from the same bits.

* `Number.value? x`: the rational number that `x` stands for, if it is finite.
* `Number.unpack_zero`, `Number.unpack_subnormal`, `Number.unpack_normal`: what is unpacked, by the magnitude
  pattern.
* `Number.isFinite_iff`: what the library calls finite, by the magnitude pattern.
* `Number.value?_of_finite`: the rational number is the number of units that `denote` gives.
* `Number.ofPattern_pattern`: the sign and the pattern make up the number again.
-/

namespace Primer.Number

open Float.Model Float.Model.UnpackedFloat

/-- The rational number that `x` stands for, if it stands for one. -/
def value? (x : Float) : Option ℚ :=
  match x.toModel.unpack with
  | .zero _ => some 0
  | .finite sign mantissa exponent _ => some (sign.apply mantissa * 2 ^ exponent)
  | .infinity _ | .notANumber => none

/-! ### Fields -/

theorem signBit_eq : signBit = 9223372036854775808 := rfl

theorem blockSize_eq : blockSize = 4503599627370496 := rfl

theorem infinityPattern_eq : infinityPattern = 9218868437227405312 := rfl

theorem unitsPerOne_eq : unitsPerOne = 2 ^ 1074 := by decide +kernel

theorem unitsPerOne_pos : 0 < unitsPerOne := by decide +kernel

/-- The bits that a number is unpacked from. -/
def bits (x : Float) : BitVec Format.binary64.numBits := x.toBits.toBitVec

/-- The sign as it is unpacked. -/
def signOf (x : Float) : Sign := if isNegative x then .negative else .positive

section Fields

variable (x : Float)

theorem toNat_toBits_lt : x.toBits.toNat < 2 * signBit := x.toBits.toNat_lt

theorem toNat_unpackMantissa : (unpackMantissa (bits x)).toNat = pattern x % blockSize := by
  have hbits : (unpackMantissa (bits x)).toNat = x.toBits.toNat % 4503599627370496 := rfl
  rw [hbits, pattern, signBit_eq, blockSize_eq]
  omega

theorem toNat_unpackExponent : (unpackExponent (bits x)).toNat = pattern x / blockSize := by
  have hbits : (unpackExponent (bits x)).toNat = (x.toBits.toNat >>> 52) % 2048 := rfl
  rw [hbits, Nat.shiftRight_eq_div_pow, pattern, signBit_eq, blockSize_eq]
  omega

theorem ofBitVec_unpackSign : Sign.ofBitVec (unpackSign (bits x)) = signOf x := by
  have hbits : (unpackSign (bits x)).toNat = (x.toBits.toNat >>> 63) % 2 := rfl
  have hlt := toNat_toBits_lt x
  rw [Nat.shiftRight_eq_div_pow] at hbits
  rw [signBit_eq] at hlt
  have hzero : unpackSign (bits x) = 0#1 ↔ isNegative x = false := by
    rw [← BitVec.toNat_inj, hbits, BitVec.toNat_zero, isNegative, signBit_eq, decide_eq_false_iff_not]
    omega
  rw [Sign.ofBitVec, signOf]
  by_cases hneg : isNegative x = false
  · rw [if_pos (hzero.mpr hneg), hneg]
    rfl
  · rw [if_neg fun h => hneg (hzero.mp h), if_pos (by simpa using hneg)]

theorem unpackExponent_eq_zero_iff : unpackExponent (bits x) = 0#_ ↔ pattern x < blockSize := by
  have hzero : (0#_ : BitVec Format.binary64.exponentBits).toNat = 0 := rfl
  rw [← BitVec.toNat_inj, toNat_unpackExponent, hzero, blockSize_eq]
  omega

/-- The exponent of the infinities and of what is no number. -/
theorem unpackExponent_eq_ones_iff : unpackExponent (bits x) = -1#_ ↔ infinityPattern ≤ pattern x := by
  have hones : (-1#_ : BitVec Format.binary64.exponentBits).toNat = 2047 := rfl
  have hlt : pattern x < signBit := Nat.mod_lt _ (by decide)
  rw [signBit_eq] at hlt
  rw [← BitVec.toNat_inj, toNat_unpackExponent, hones, blockSize_eq, infinityPattern_eq]
  omega

theorem unpackMantissa_eq_zero_iff : unpackMantissa (bits x) = 0#_ ↔ pattern x % blockSize = 0 := by
  have hzero : (0#_ : BitVec Format.binary64.mantissaBitsWithoutImplicit).toNat = 0 := rfl
  rw [← BitVec.toNat_inj, toNat_unpackMantissa, hzero]

end Fields

/-! ### What is unpacked -/

section Unpack

variable {x : Float}

theorem unpack_eq (x : Float) : x.toModel.unpack = UnpackedFloat.unpack Format.binary64 (bits x) := rfl

theorem unpack_zero (h : pattern x = 0) : x.toModel.unpack = .zero (signOf x) := by
  have hones : ¬infinityPattern ≤ pattern x := by rw [h]; decide
  have hexponent : pattern x < blockSize := by rw [h]; decide
  have hmantissa : pattern x % blockSize = 0 := by rw [h]; rfl
  rw [unpack_eq, UnpackedFloat.unpack]
  simp only
  rw [if_neg (mt (unpackExponent_eq_ones_iff x).mp hones),
    if_pos ((unpackExponent_eq_zero_iff x).mpr hexponent),
    dif_pos ((unpackMantissa_eq_zero_iff x).mpr hmantissa), ofBitVec_unpackSign]

/-- Below the first block the mantissa is all there is. -/
theorem unpack_subnormal (hpos : 0 < pattern x) (h : pattern x < blockSize) :
    x.toModel.unpack = .finite (signOf x) (pattern x) (-1074) hpos := by
  have hones : ¬infinityPattern ≤ pattern x := by
    rw [blockSize_eq] at h
    rw [infinityPattern_eq]
    omega
  have hmod : pattern x % blockSize = pattern x := Nat.mod_eq_of_lt h
  have hmantissa : ¬pattern x % blockSize = 0 := by omega
  rw [unpack_eq, UnpackedFloat.unpack]
  simp only
  rw [if_neg (mt (unpackExponent_eq_ones_iff x).mp hones),
    if_pos ((unpackExponent_eq_zero_iff x).mpr h),
    dif_neg (mt (unpackMantissa_eq_zero_iff x).mp hmantissa), ofBitVec_unpackSign]
  simp only [toNat_unpackMantissa, toNat_unpackExponent, hmod, Nat.div_eq_of_lt h]
  rfl

/-- In later blocks the mantissa has one more bit, and each block has its exponent. -/
theorem unpack_normal (h : blockSize ≤ pattern x) (hfinite : pattern x < infinityPattern) :
    ∃ hpos, x.toModel.unpack = .finite (signOf x) (blockSize + pattern x % blockSize)
      ((pattern x / blockSize : Nat) - 1075) hpos := by
  have hmantissa : (1#1 ++ unpackMantissa (bits x)).toNat = blockSize + pattern x % blockSize := by
    rw [BitVec.toNat_append, ← Nat.shiftLeft_add_eq_or_of_lt (unpackMantissa (bits x)).isLt,
      toNat_unpackMantissa]
    rfl
  rw [unpack_eq, UnpackedFloat.unpack]
  simp only
  rw [if_neg (mt (unpackExponent_eq_ones_iff x).mp hfinite.not_ge),
    if_neg (mt (unpackExponent_eq_zero_iff x).mp h.not_gt), ofBitVec_unpackSign]
  simp only [hmantissa, toNat_unpackExponent]
  exact ⟨Nat.add_pos_left (by decide) _, rfl⟩

theorem unpack_infinite (h : infinityPattern ≤ pattern x) :
    x.toModel.unpack = .infinity (signOf x) ∨ x.toModel.unpack = .notANumber := by
  rw [unpack_eq, UnpackedFloat.unpack]
  simp only
  rw [if_pos ((unpackExponent_eq_ones_iff x).mpr h), ofBitVec_unpackSign]
  split
  · exact .inl rfl
  · exact .inr rfl

theorem isFinite_iff (x : Float) : x.isFinite = true ↔ pattern x < infinityPattern := by
  change x.toModel.unpack.isFinite = true ↔ _
  rcases Nat.lt_or_ge (pattern x) infinityPattern with h | h
  · refine iff_of_true ?_ h
    rcases Nat.lt_or_ge (pattern x) blockSize with hlow | hhigh
    · rcases Nat.eq_zero_or_pos (pattern x) with hzero | hpos
      · rw [unpack_zero hzero]
        rfl
      · rw [unpack_subnormal hpos hlow]
        rfl
    · obtain ⟨hpos, hx⟩ := unpack_normal hhigh h
      rw [hx]
      rfl
  · refine iff_of_false ?_ h.not_gt
    rcases unpack_infinite h with hx | hx <;> simp [hx, UnpackedFloat.isFinite]

end Unpack

/-! ### Values -/

section Values

variable {x : Float}

/-- The number of units with the sign. -/
def signed (negative : Bool) (units : Nat) : ℤ := if negative then -units else units

theorem apply_signOf (x : Float) (n : Nat) : (signOf x).apply n = signed (isNegative x) n := by
  unfold signOf signed
  cases isNegative x <;> rfl

theorem signed_mul (negative : Bool) (m n : Nat) : signed negative (m * n) = signed negative m * n := by
  cases negative <;> simp [signed]

theorem natAbs_signed (negative : Bool) (n : Nat) : (signed negative n).natAbs = n := by
  cases negative <;> simp [signed]

theorem unitsOfPattern_of_lt {p : Nat} (h : p < blockSize) : unitsOfPattern p = p := by
  have hdiv : p / blockSize = 0 := Nat.div_eq_of_lt h
  simp [unitsOfPattern, hdiv]

/-- The units of a pattern behind the first block. -/
theorem unitsOfPattern_of_le {p : Nat} (h : blockSize ≤ p) :
    unitsOfPattern p = (blockSize + p % blockSize) * 2 ^ (p / blockSize - 1) := by
  have hpos : 0 < p / blockSize := Nat.div_pos h (by decide)
  have hsplit := Nat.div_add_mod p blockSize
  have hmantissa : p - (p / blockSize - 1) * blockSize = blockSize + p % blockSize := by
    rw [blockSize_eq] at *
    omega
  rw [unitsOfPattern, hmantissa]
  rfl

/-- The rational number that a number stands for is the one that its units make up. -/
theorem value?_of_finite (h : pattern x < infinityPattern) :
    value? x = some ((signed (isNegative x) (unitsOfPattern (pattern x)) : ℤ) / (unitsPerOne : ℚ)) := by
  rw [unitsPerOne_eq, Nat.cast_pow]
  unfold value?
  rcases Nat.lt_or_ge (pattern x) blockSize with hlow | hhigh
  · rw [unitsOfPattern_of_lt hlow]
    rcases Nat.eq_zero_or_pos (pattern x) with hzero | hpos
    · rw [unpack_zero hzero, hzero]
      simp [signed]
    · rw [unpack_subnormal hpos hlow]
      simp only [apply_signOf]
      rw [div_eq_mul_inv, ← zpow_natCast, ← zpow_neg]
      rfl
  · obtain ⟨hpos, hx⟩ := unpack_normal hhigh h
    have hexponent : ((pattern x / blockSize : Nat) : ℤ) - 1075 =
        ((pattern x / blockSize - 1 : Nat) : ℤ) - (1074 : Nat) := by
      have hone : 0 < pattern x / blockSize := Nat.div_pos hhigh (by decide)
      omega
    rw [hx, unitsOfPattern_of_le hhigh]
    simp only [apply_signOf, hexponent, signed_mul]
    rw [zpow_sub₀ two_ne_zero, zpow_natCast, zpow_natCast, Int.cast_mul, Int.cast_natCast, Nat.cast_pow,
      Nat.cast_ofNat, mul_div_assoc]

theorem value?_of_infinite (h : infinityPattern ≤ pattern x) : value? x = none := by
  unfold value?
  rcases unpack_infinite h with hx | hx <;> rw [hx]

end Values

/-- The sign and the pattern make up the number again. -/
theorem ofPattern_pattern (x : Float) : ofPattern (isNegative x) (pattern x) = x := by
  have hbits : (if isNegative x then signBit + pattern x else pattern x) = x.toBits.toNat := by
    have hlt := toNat_toBits_lt x
    unfold isNegative pattern
    rw [signBit_eq] at *
    split
    · rename_i hneg
      have hneg : 9223372036854775808 ≤ x.toBits.toNat := by simpa using hneg
      omega
    · rename_i hneg
      have hneg : x.toBits.toNat < 9223372036854775808 := by simpa using hneg
      omega
  rw [ofPattern, hbits, UInt64.ofNat_toNat, Float.ofBits_toBits]

end Primer.Number
