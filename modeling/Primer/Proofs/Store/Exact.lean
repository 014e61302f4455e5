import Primer.Proofs.Number.Value
import Primer.Proofs.Store.History
import Primer.Proofs.Store.Places

/-!
# Exact sizes and indices

Sizes and indices are numbers that may be fractions, of any magnitude and of either sign.  An array takes them
for the rational numbers that they stand for, and for nothing near them.

* `Number.integer?_eq_some_iff`: the integer that a number is, against the rational number it stands for.
* `Store.Selects s name index i`: the index stands for `i`, and there is such a slot.
* `Store.arrays_exact`: which sizes and indices are accepted, and what they do.
-/

namespace Primer

namespace Number

theorem whole?_eq_some_iff {units n : Nat} : whole? units = some n ↔ units = n * unitsPerOne := by
  unfold whole?
  constructor
  · intro h
    split at h <;> cases h
    rename_i hmod
    exact (Nat.div_mul_cancel (Nat.dvd_of_mod_eq_zero hmod)).symm
  · intro h
    rw [h, if_pos (Nat.mul_mod_left n unitsPerOne), Nat.mul_div_cancel n unitsPerOne_pos]

theorem integer?_eq (x : Float) : integer? x =
    match denote x with
    | .finite negative units => (whole? units).map (signed negative)
    | _ => none := by
  unfold integer?
  cases denote x with
  | finite negative units => dsimp only; cases whole? units <;> rfl
  | _ => rfl

/-- The units of an integer. -/
theorem signed_eq_mul_iff {negative : Bool} {units : Nat} {z : ℤ} :
    signed negative units = z * unitsPerOne ↔
      ∃ n : Nat, units = n * unitsPerOne ∧ signed negative n = z := by
  have hpos : (unitsPerOne : ℤ) ≠ 0 := Nat.cast_ne_zero.mpr unitsPerOne_pos.ne'
  constructor
  · intro h
    have hunits : units = z.natAbs * unitsPerOne := by
      have habs := congrArg Int.natAbs h
      rwa [natAbs_signed, Int.natAbs_mul, Int.natAbs_natCast] at habs
    refine ⟨z.natAbs, hunits, ?_⟩
    rw [hunits, signed_mul] at h
    exact Int.eq_of_mul_eq_mul_right hpos h
  · rintro ⟨n, hunits, hz⟩
    rw [hunits, signed_mul, hz]

/-- A number is an integer just if it stands for one. -/
theorem integer?_eq_some_iff {x : Float} {z : ℤ} : integer? x = some z ↔ value? x = some (z : ℚ) := by
  rcases Nat.lt_or_ge (pattern x) infinityPattern with h | h
  · have hpos : (unitsPerOne : ℚ) ≠ 0 := Nat.cast_ne_zero.mpr unitsPerOne_pos.ne'
    rw [integer?_eq, denote, if_pos h, value?_of_finite h]
    dsimp only
    rw [Option.map_eq_some_iff, Option.some.injEq, div_eq_iff hpos]
    have hcast : ((signed (isNegative x) (unitsOfPattern (pattern x)) : ℤ) : ℚ) = z * unitsPerOne ↔
        signed (isNegative x) (unitsOfPattern (pattern x)) = z * unitsPerOne := by
      exact_mod_cast Iff.rfl
    rw [hcast, signed_eq_mul_iff]
    simp only [whole?_eq_some_iff]
  · rw [integer?_eq, denote, if_neg h.not_gt, value?_of_infinite h]
    by_cases hpattern : pattern x = infinityPattern <;> simp [hpattern]

end Number

namespace Store

variable {s : Store} {name : String}

/-- Every size is one that an array can have. -/
def Sized (s : Store) : Prop := ∀ name n, s.size? name = some n → n ≤ sizeLimit

/-- The index stands for `i`, and the array has a slot with that number. -/
def Selects (s : Store) (name : String) (index : Float) (i : Nat) : Prop :=
  Number.value? index = some (i : ℚ) ∧ ∃ n, s.size? name = some n ∧ i < n

/-! ### Sizes -/

/-- A size is a positive integer, cut at the limit. -/
theorem sizeOf_eq_ok_iff {size : Float} {n : Nat} : sizeOf size = .ok n ↔
    ∃ k : Nat, 0 < k ∧ Number.integer? size = some (k : ℤ) ∧ n = min k sizeLimit := by
  rw [sizeOf, Number.integer?_eq]
  cases Number.denote size with
  | nan => simp
  | infinite negative => cases negative <;> simp
  | finite negative units =>
    dsimp only
    cases hwhole : Number.whole? units with
    | none =>
      refine ⟨fun h => ?_, fun ⟨_, _, h, _⟩ => nomatch h⟩
      split at h <;> cases h
    | some m =>
      have hunits := Number.whole?_eq_some_iff.mp hwhole
      have hzero : units = 0 ↔ m = 0 := by
        rw [hunits, Nat.mul_eq_zero, or_iff_left Number.unitsPerOne_pos.ne']
      cases negative with
      | true =>
        refine ⟨fun h => ?_, fun ⟨k, hk, h, _⟩ => ?_⟩
        · cases h
        · have hneg : -(m : ℤ) = k := Option.some.inj h
          omega
      | false =>
        simp only [Number.signed, Bool.false_or, decide_eq_true_eq, hzero, Bool.false_eq_true, if_false,
          Option.map_some, Option.some.injEq, Nat.cast_inj]
        constructor
        · intro h
          split at h <;> cases h
          exact ⟨m, by omega, rfl, rfl⟩
        · rintro ⟨k, hk, rfl, rfl⟩
          rw [if_neg hk.ne']

theorem declare_eq_ok_iff {size : Float} {n : Nat} : (∃ s', s.declare name size = .ok (n, s')) ↔
    s.size? name = none ∧ sizeOf size = .ok n := by
  constructor
  · rintro ⟨s', h⟩
    obtain ⟨hsize, hgrows⟩ := grows_declare h
    exact ⟨hgrows.new, hsize⟩
  · rintro ⟨hnew, hsize⟩
    exact ⟨{ s with sizes := s.sizes.insert name n }, by simp [declare, hsize, isDeclared_eq, hnew]⟩

/-! ### Indices -/

theorem slotOf_eq_ok_iff {index : Float} {size : Option Nat} {i : Nat} :
    slotOf name index size = .ok i ↔
      Number.integer? index = some (i : ℤ) ∧ ∃ n, size = some n ∧ i < n := by
  constructor
  · intro h
    have hindex := integer?_of_slotOf h
    refine ⟨hindex, ?_⟩
    cases size with
    | none => cases h
    | some n =>
      rw [slotOf, hindex] at h
      change (if i < n then _ else _) = _ at h
      split at h
      · exact ⟨n, rfl, ‹_›⟩
      · cases h
  · rintro ⟨hindex, n, rfl, hi⟩
    rw [slotOf, hindex]
    exact if_pos hi

/-- The slots are those that are selected. -/
theorem slot_eq_ok_iff (hs : s.Sized) {index : Float} {i : Nat} :
    s.slot name index = .ok i ↔ s.Selects name index i := by
  rw [Selects, ← Int.cast_natCast, ← Number.integer?_eq_some_iff, ← slotOf_eq_ok_iff,
    ← slot_eq_slotOf (hs name)]

theorem element?_eq_ok_iff (hs : s.Sized) {index : Float} {x : Option Float} :
    s.element? name index = .ok x ↔ ∃ i, s.Selects name index i ∧ x = s.cell? name i := by
  simp only [← slot_eq_ok_iff hs]
  rw [element?]
  cases s.slot name index with
  | error e => simp
  | ok i => simp [cell?, eq_comm]

theorem assign_eq_ok_iff (hs : s.Sized) {index x : Float} :
    (∃ s', s.assign name index x = .ok s') ↔ ∃ i, s.Selects name index i := by
  simp only [← slot_eq_ok_iff hs]
  rw [assign]
  cases s.slot name index with
  | error e => simp
  | ok i => simp

/-- The element that is set is the one that the index selects. -/
theorem sets_of_assign (hs : s.Sized) {index x : Float} {s' : Store} {i : Nat}
    (h : s.assign name index x = .ok s') (hi : s.Selects name index i) : s.Sets (.cell name i) x s' := by
  have hslot := (slot_eq_ok_iff hs).mpr hi
  obtain ⟨p, hp, hsets⟩ := sets_assign h
  rw [place?, hslot] at hp
  cases hp
  exact hsets

theorem Selects.eq_iff {index index' : Float} {i i' : Nat} (h : s.Selects name index i)
    (h' : s.Selects name index' i') : i = i' ↔ Number.value? index = Number.value? index' := by
  rw [h.1, h'.1, Option.some.injEq, Nat.cast_inj]

theorem sized_of_grows (hs : s.Sized) {n : Nat} {s' : Store} (h : s.Grows name n s') (hn : n ≤ sizeLimit) :
    s'.Sized := by
  intro x k hk
  rw [h.sizes] at hk
  split at hk
  · cases hk
    exact hn
  · exact hs x k hk

/-- **Sizes and indices are exact.**  An array is declared with a size just if the size stands for a positive
integer and the name is new, and it gets that size up to the limit.  Its elements are set and read under an
index just if the index stands for the number of a slot, and then in that slot; so two indices lead to one slot
just if they stand for the same number. -/
theorem arrays_exact (s : Store) (hs : s.Sized) (name : String) :
    (∀ size n, (∃ s', s.declare name size = .ok (n, s')) ↔
      s.size? name = none ∧
        ∃ k : Nat, 0 < k ∧ Number.value? size = some (k : ℚ) ∧ n = min k (2 ^ 64 - 1)) ∧
    (∀ size n s', s.declare name size = .ok (n, s') →
      s.Grows name n s' ∧ (s.Valid → s.Adds name n s') ∧ s'.Sized) ∧
    (∀ index i, s.slot name index = .ok i ↔ s.Selects name index i) ∧
    (∀ index x, s.element? name index = .ok x ↔ ∃ i, s.Selects name index i ∧ x = s.cell? name i) ∧
    (∀ index x, (∃ s', s.assign name index x = .ok s') ↔ ∃ i, s.Selects name index i) ∧
    (∀ index x s' i, s.assign name index x = .ok s' → s.Selects name index i →
      s.Sets (.cell name i) x s' ∧ s'.Sized) ∧
    ∀ index index' i i', s.Selects name index i → s.Selects name index' i' →
      (i = i' ↔ Number.value? index = Number.value? index') := by
  refine ⟨fun size n => ?_, fun size n s' h => ?_, fun index i => slot_eq_ok_iff hs,
    fun index x => element?_eq_ok_iff hs, fun index x => assign_eq_ok_iff hs,
    fun index x s' i h hi => ⟨sets_of_assign hs h hi, ?_⟩, fun index index' i i' h h' => h.eq_iff h'⟩
  · rw [declare_eq_ok_iff, sizeOf_eq_ok_iff]
    simp only [Number.integer?_eq_some_iff, Int.cast_natCast]
    rfl
  · obtain ⟨hsize, hgrows⟩ := grows_declare h
    exact ⟨hgrows, hgrows.adds, sized_of_grows hs hgrows (size_of_sizeOf hsize).2⟩
  · intro y n hn
    rw [(sets_of_assign hs h hi).sizes] at hn
    exact hs y n hn

/-- In the largest array the negative zero selects the first slot, and an index beyond all slots none. -/
theorem arrays_exact_largest :
    let s : Store := { empty with sizes := empty.sizes.insert "a" sizeLimit }
    s.Sized ∧ s.slot "a" (Float.ofBits 0x8000000000000000) = .ok 0 ∧
      ¬∃ i, s.slot "a" (Float.ofBits 0x43F0000000000000) = .ok i := by
  intro s
  have hsize : ∀ x, s.size? x = if "a" = x then some sizeLimit else none := size?_insert sizeLimit
  have hs : s.Sized := by
    intro x n hn
    rw [hsize] at hn
    split at hn <;> cases hn
    exact le_rfl
  have hslot := (arrays_exact s hs "a").2.2.1
  refine ⟨hs, (hslot _ 0).mpr ⟨by decide +kernel, sizeLimit, hsize "a", by decide⟩, ?_⟩
  rintro ⟨i, hi⟩
  obtain ⟨hvalue, n, hn, hlt⟩ := (hslot _ i).mp hi
  have hhuge : Number.value? (Float.ofBits 0x43F0000000000000) = some ((2 ^ 64 : Nat) : ℚ) := by
    decide +kernel
  rw [hsize, if_pos rfl] at hn
  cases hn
  rw [hhuge, Option.some.injEq, Nat.cast_inj] at hvalue
  rw [← hvalue] at hlt
  exact absurd hlt (by decide)

end Store

end Primer
