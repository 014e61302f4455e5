import Primer.Store
import Primer.Word

/-!
# Changes of a store

What a store holds is seen through `get?`, `size?` and `cell?`, and each operation is known by what it does
to them.

* `Store.Change s s'`: one operation under a name that is an identifier.
* `Store.Valid s`: what holds of all stores that changes lead to.
* `Store.Extends s s'`: nothing that `s` holds has gone from `s'`, and no array has another size.
-/

namespace Primer.Store

/-- The value in a slot of an array. -/
def cell? (s : Store) (name : String) (i : Nat) : Option Float := s.elements[(name, i)]?

/-- One change of a store: a scalar or an element is set, or an array is declared.  Names are
identifiers. -/
inductive Change (s : Store) : Store → Prop
  | record {name : String} (hname : Word.isIdentifier name.toList = true) (value : Float) :
    Change s (s.record name value)
  | assign {name : String} {index value : Float} {s' : Store}
    (hname : Word.isIdentifier name.toList = true) (h : s.assign name index value = .ok s') :
    Change s s'
  | declare {name : String} {size : Float} {n : Nat} {s' : Store}
    (hname : Word.isIdentifier name.toList = true) (h : s.declare name size = .ok (n, s')) :
    Change s s'

/-- Names are identifiers, sizes are positive and within the limit, and elements lie within the array
that they belong to. -/
structure Valid (s : Store) : Prop where
  scalars : ∀ name, (s.get? name).isSome = true → Word.isIdentifier name.toList = true
  arrays : ∀ name, (s.size? name).isSome = true → Word.isIdentifier name.toList = true
  sizes : ∀ name n, s.size? name = some n → 1 ≤ n ∧ n ≤ sizeLimit
  elements : ∀ name i, (s.cell? name i).isSome = true → ∃ n, s.size? name = some n ∧ i < n

/-- No scalar, array or element has gone, and no array has another size. -/
structure Extends (s s' : Store) : Prop where
  scalars : ∀ name, (s.get? name).isSome = true → (s'.get? name).isSome = true
  sizes : ∀ name n, s.size? name = some n → s'.size? name = some n
  elements : ∀ name i, (s.cell? name i).isSome = true → (s'.cell? name i).isSome = true

variable {s s' : Store} {name : String}

/-! ### Operations -/

theorem get?_record (value : Float) (x : String) :
    (s.record name value).get? x = if name = x then some value else s.get? x := by
  unfold get? record
  rw [Std.ExtTreeMap.getElem?_insert]
  simp

/-- The slot of an accepted index lies within the array under the name. -/
theorem slot_eq_ok {index : Float} {i : Nat} (h : s.slot name index = .ok i) :
    ∃ n, s.size? name = some n ∧ i < n := by
  unfold slot at h
  split at h
  · cases h
  · rename_i n hsize
    refine ⟨n, hsize, ?_⟩
    split at h
    · cases h
    · cases h
    · split at h
      · cases h
      · split at h
        · cases h
        · split at h <;> cases h
          rename_i hle
          omega

/-- What an assignment to an element does. -/
theorem assign_eq_ok {index value : Float} (h : s.assign name index value = .ok s') :
    ∃ i, s.slot name index = .ok i ∧ s' = { s with elements := s.elements.insert (name, i) value } := by
  unfold assign at h
  split at h <;> cases h
  exact ⟨_, ‹_›, rfl⟩

theorem size_of_sizeOf {size : Float} {n : Nat} (h : sizeOf size = .ok n) : 1 ≤ n ∧ n ≤ sizeLimit := by
  unfold sizeOf at h
  split at h
  · cases h
  · cases h
  · cases h
  · rename_i negative units hdenote
    split at h
    · cases h
    · rename_i hpositive
      split at h <;> cases h
      rename_i k hwhole
      have hunits : units ≠ 0 := by
        intro hzero
        simp [hzero] at hpositive
      have hk : k ≠ 0 := by
        rintro rfl
        unfold Number.whole? at hwhole
        split at hwhole
        · rename_i hmod
          have hdiv : units / Number.unitsPerOne = 0 := Option.some.inj hwhole
          have hsplit := Nat.div_add_mod units Number.unitsPerOne
          rw [hdiv, hmod] at hsplit
          omega
        · cases hwhole
      have hlimit : 1 ≤ sizeLimit := by decide
      omega

theorem isDeclared_eq (s : Store) (name : String) : s.isDeclared name = (s.size? name).isSome :=
  Std.ExtTreeMap.contains_eq_isSome_getElem?

/-- What the declaration of an array does. -/
theorem declare_eq_ok {size : Float} {n : Nat} (h : s.declare name size = .ok (n, s')) :
    s.size? name = none ∧ 1 ≤ n ∧ n ≤ sizeLimit ∧
      s' = { s with sizes := s.sizes.insert name n } := by
  unfold declare at h
  split at h
  · cases h
  · rename_i k hsize
    split at h <;> cases h
    rename_i hnew
    obtain ⟨hone, hlimit⟩ := size_of_sizeOf hsize
    exact ⟨by simpa [isDeclared_eq] using hnew, hone, hlimit, rfl⟩

theorem size?_insert (n : Nat) (x : String) :
    size? { s with sizes := s.sizes.insert name n } x = if name = x then some n else s.size? x := by
  unfold size?
  rw [Std.ExtTreeMap.getElem?_insert]
  simp

theorem cell?_insert (i : Nat) (value : Float) (x : String) (j : Nat) :
    cell? { s with elements := s.elements.insert (name, i) value } x j =
      if name = x ∧ i = j then some value else s.cell? x j := by
  unfold cell?
  rw [Std.ExtTreeMap.getElem?_insert]
  simp

/-- An assignment to an element sets one slot and nothing else. -/
theorem view_assign {index value : Float} (h : s.assign name index value = .ok s') :
    (∀ x, s'.get? x = s.get? x) ∧ (∀ x, s'.size? x = s.size? x) ∧
      ∃ i n, s.size? name = some n ∧ i < n ∧
        ∀ x j, s'.cell? x j = if name = x ∧ i = j then some value else s.cell? x j := by
  obtain ⟨i, hslot, rfl⟩ := assign_eq_ok h
  obtain ⟨n, hsize, hi⟩ := slot_eq_ok hslot
  exact ⟨fun _ => rfl, fun _ => rfl, i, n, hsize, hi, cell?_insert i value⟩

/-- A declaration adds the size of an array and nothing else. -/
theorem view_declare {size : Float} {n : Nat} (h : s.declare name size = .ok (n, s')) :
    s.size? name = none ∧ 1 ≤ n ∧ n ≤ sizeLimit ∧ (∀ x, s'.get? x = s.get? x) ∧
      (∀ x, s'.size? x = if name = x then some n else s.size? x) ∧ ∀ x i, s'.cell? x i = s.cell? x i := by
  obtain ⟨hnew, hone, hlimit, rfl⟩ := declare_eq_ok h
  exact ⟨hnew, hone, hlimit, fun _ => rfl, size?_insert n, fun _ _ => rfl⟩

/-! ### What changes preserve -/

theorem valid_empty : Valid empty where
  scalars name h := by simp [get?, empty] at h
  arrays name h := by simp [size?, empty] at h
  sizes name n h := by simp [size?, empty] at h
  elements name i h := by simp [cell?, empty] at h

theorem Extends.refl (s : Store) : s.Extends s := ⟨fun _ h => h, fun _ _ h => h, fun _ _ h => h⟩

theorem Extends.trans {s'' : Store} (h : s.Extends s') (h' : s'.Extends s'') : s.Extends s'' where
  scalars name hs := h'.scalars name (h.scalars name hs)
  sizes name n hs := h'.sizes name n (h.sizes name n hs)
  elements name i hs := h'.elements name i (h.elements name i hs)

theorem Change.extends (h : s.Change s') : s.Extends s' := by
  cases h with
  | record hname value =>
    refine ⟨fun x hx => ?_, fun _ _ hn => hn, fun _ _ hi => hi⟩
    rw [get?_record]
    split
    · rfl
    · exact hx
  | assign hname h =>
    obtain ⟨hget, hsize, i, n, -, -, hcell⟩ := view_assign h
    refine ⟨fun x hx => by rwa [hget], fun x n hn => by rwa [hsize], fun x j hj => ?_⟩
    rw [hcell]
    split
    · rfl
    · exact hj
  | declare hname h =>
    obtain ⟨hnew, -, -, hget, hsize, hcell⟩ := view_declare h
    refine ⟨fun x hx => by rwa [hget], fun x n hn => ?_, fun x j hj => by rwa [hcell]⟩
    rw [hsize, if_neg, hn]
    rintro rfl
    rw [hnew] at hn
    cases hn

theorem Change.valid (h : s.Change s') (hs : s.Valid) : s'.Valid := by
  cases h with
  | record hname value =>
    refine ⟨fun x hx => ?_, hs.arrays, hs.sizes, hs.elements⟩
    rw [get?_record] at hx
    split at hx
    · rename_i heq
      exact heq ▸ hname
    · exact hs.scalars x hx
  | assign hname h =>
    obtain ⟨hget, hsize, i, n, hn, hi, hcell⟩ := view_assign h
    refine ⟨fun x hx => hs.scalars x (hget x ▸ hx), fun x hx => hs.arrays x (hsize x ▸ hx),
      fun x k hk => hs.sizes x k (hsize x ▸ hk), fun x j hj => ?_⟩
    rw [hsize]
    rw [hcell] at hj
    split at hj
    · rename_i heq
      obtain ⟨rfl, rfl⟩ := heq
      exact ⟨n, hn, hi⟩
    · exact hs.elements x j hj
  | declare hname h =>
    obtain ⟨hnew, hone, hlimit, hget, hsize, hcell⟩ := view_declare h
    refine ⟨fun x hx => hs.scalars x (hget x ▸ hx), fun x hx => ?_, fun x k hk => ?_, fun x j hj => ?_⟩
    · rw [hsize] at hx
      split at hx
      · rename_i heq
        exact heq ▸ hname
      · exact hs.arrays x hx
    · rw [hsize] at hk
      split at hk
      · cases hk
        exact ⟨hone, hlimit⟩
      · exact hs.sizes x k hk
    · rw [hcell] at hj
      obtain ⟨k, hk, hlt⟩ := hs.elements x j hj
      refine ⟨k, ?_, hlt⟩
      rw [hsize, if_neg, hk]
      rintro rfl
      rw [hnew] at hk
      cases hk

end Primer.Store
