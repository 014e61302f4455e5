import Primer.Number.Decimal
import Primer.Proofs.Number.Value

/-!
# Rounding to the nearest number

A fraction that a number stands for exactly is rounded to that number, and the shortest fraction that is
searched for a number is one that is rounded to it.

* `Number.exists_mantissa`: a pattern as a block and a place in it, with its units.
* `Number.nearest_eq`: a fraction with the units of a pattern is rounded to the pattern.
* `Number.pattern_search`: what the search finds is rounded to where it began.
-/

namespace Primer.Number

/-- A number of the grid: `m` units, or `m` times a power of two of them if `m` fills the mantissa. -/
theorem exists_mantissa (p : Nat) : ∃ m k, p = k * blockSize + m ∧ unitsOfPattern p = m * 2 ^ k ∧
    m < 2 * blockSize ∧ (k = 0 ∨ blockSize ≤ m) := by
  rcases Nat.lt_or_ge p blockSize with hlow | hhigh
  · refine ⟨p, 0, by omega, ?_, by omega, .inl rfl⟩
    rw [unitsOfPattern_of_lt hlow, Nat.pow_zero, Nat.mul_one]
  · have hpos : 0 < p / blockSize := Nat.div_pos hhigh (by decide)
    have hmod : p % blockSize < blockSize := Nat.mod_lt _ (by decide)
    have hsplit := Nat.div_add_mod p blockSize
    refine ⟨blockSize + p % blockSize, p / blockSize - 1, ?_, unitsOfPattern_of_le hhigh, by omega,
      .inr (Nat.le_add_right _ _)⟩
    rw [blockSize_eq] at *
    omega

theorem log2_mul_two_pow {m : Nat} (hm : m ≠ 0) (k : Nat) : (m * 2 ^ k).log2 = m.log2 + k := by
  induction k with
  | zero => rw [Nat.pow_zero, Nat.mul_one, Nat.add_zero]
  | succ k ih =>
    have hne : m * 2 ^ k ≠ 0 := Nat.mul_ne_zero hm (Nat.two_pow_pos k).ne'
    rw [Nat.pow_succ, ← Nat.mul_assoc, Nat.mul_comm _ 2, Nat.log2_two_mul hne, ih, Nat.add_assoc]

/-- The power of two is found again from the number of units. -/
theorem log2_mantissa {m k : Nat} (hm : m < 2 * blockSize) (hk : k = 0 ∨ blockSize ≤ m) :
    (m * 2 ^ k).log2 - 52 = k := by
  rcases Nat.eq_zero_or_pos m with rfl | hpos
  · have hzero : k = 0 := hk.resolve_right (by decide)
    rw [hzero]
    rfl
  · have hlog : m.log2 < 53 := (Nat.log2_lt hpos.ne').mpr hm
    rw [log2_mul_two_pow hpos.ne']
    rcases hk with rfl | hk
    · omega
    · have hfull : 52 ≤ m.log2 := (Nat.le_log2 hpos.ne').mpr hk
      omega

/-- A whole quotient is not rounded. -/
theorem roundDiv_mul (q : Nat) {den : Nat} (hden : 0 < den) : roundDiv (q * den) den = q := by
  simp [roundDiv, Nat.mul_div_cancel q hden, hden]

/-- A fraction with the units of a pattern is rounded to the pattern. -/
theorem nearest_eq {num den p : Nat} (hden : 0 < den) (hp : p < infinityPattern)
    (h : num * unitsPerOne = unitsOfPattern p * den) : nearest num den = p := by
  obtain ⟨m, k, hpattern, hunits, hm, hk⟩ := exists_mantissa p
  have hscale : Nat.log2 (num * unitsPerOne / den) - 52 = k := by
    rw [h, Nat.mul_div_cancel _ hden, hunits, log2_mantissa hm hk]
  have hround : roundDiv (num * unitsPerOne) (den * 2 ^ k) = m := by
    have hwhole : num * unitsPerOne = m * (den * 2 ^ k) := by
      rw [h, hunits, Nat.mul_assoc, Nat.mul_comm (2 ^ k)]
    rw [hwhole, roundDiv_mul m (Nat.mul_pos hden (Nat.two_pow_pos k))]
  unfold nearest
  simp only [hscale, Nat.pow_eq, hround]
  rw [← hpattern, Nat.min_eq_right hp.le]

/-! ### The shortest fraction -/

/-- A hit is rounded to the pattern. -/
theorem pattern_of_hit? {p : Nat} {exponent : Int} {d : Decimal} (h : hit? p exponent = some d) :
    d.pattern = p := by
  unfold hit? at h
  generalize neighbours (unitsOfPattern p) exponent = around at h
  simp only at h
  have hfound := List.find?_some h
  simpa using hfound

theorem below_eq (units n : Nat) :
    (neighbours units (-(n : Int))).1 = ⟨units * 10 ^ n / unitsPerOne, -(n : Int)⟩ := by
  unfold neighbours
  simp

theorem pattern_places (digits n : Nat) :
    Decimal.pattern ⟨digits, -(n : Int)⟩ = nearest digits (10 ^ n) := by
  unfold Decimal.pattern
  simp

/-- With as many places as a unit has every number is a decimal fraction. -/
theorem pattern_exact {p n : Nat} (hp : p < infinityPattern) (hn : unitsPerOne = 2 ^ n) :
    (neighbours (unitsOfPattern p) (-(n : Int))).1.pattern = p := by
  have hdvd : unitsPerOne ∣ unitsOfPattern p * 10 ^ n := by
    have hten : 10 ^ n = 2 ^ n * 5 ^ n := Nat.mul_pow 2 5 n
    rw [hn, hten, Nat.mul_left_comm]
    exact Nat.dvd_mul_right _ _
  rw [below_eq, pattern_places]
  exact nearest_eq (Nat.pow_pos (by decide)) hp (Nat.div_mul_cancel hdvd)

/-- The search finds a fraction that is rounded to the pattern, wherever it starts. -/
theorem pattern_search {p : Nat} (hp : p < infinityPattern) (steps : Nat) :
    (search p steps).pattern = p := by
  have hlast : (-1074 : Int) = -((1074 : Nat) : Int) := rfl
  unfold search
  generalize (List.range' 1 steps).reverse.map (Int.ofNat · - 1074) = exponents
  simp only [hlast]
  cases hfound : exponents.findSome? (hit? p) with
  | none =>
    rw [Option.getD_none]
    exact pattern_exact hp unitsPerOne_eq
  | some d =>
    obtain ⟨exponent, -, hhit⟩ := List.exists_of_findSome?_eq_some hfound
    rw [Option.getD_some]
    exact pattern_of_hit? hhit

end Primer.Number
