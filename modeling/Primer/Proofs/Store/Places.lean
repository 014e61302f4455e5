import Primer.Proofs.Store.Changes

/-!
# Places in a store

A store holds values at places: under the name of a scalar, or in a slot of an array.  What is set at one place
is seen there and nowhere else.

* `Store.place? s name index`: the place that a name stands for, with or without an index.
* `Store.Sets s p x s'`: `x` is set at the place `p`, and nothing else is changed.
* `Store.Grows s name n s'`: an array gets that size, and nothing else is changed.
* `Store.Adds s name n s'`: an array of that size is added, without elements.
-/

namespace Primer

/-- Where a value can be: under a name, or in a slot of an array. -/
inductive Place where
  | scalar (name : String)
  | cell (name : String) (i : Nat)
  deriving DecidableEq

namespace Store

/-- The value at a place. -/
def at? (s : Store) : Place → Option Float
  | .scalar name => s.get? name
  | .cell name i => s.cell? name i

/-- The place that a name stands for, perhaps with an index that the array under the name accepts. -/
def place? (s : Store) (name : String) : Option Float → Option Place
  | none => some (.scalar name)
  | some index =>
    match s.slot name index with
    | .ok i => some (.cell name i)
    | .error _ => none

/-- The value is set at the place, and all other places and the sizes of arrays are as they were. -/
structure Sets (s : Store) (p : Place) (x : Float) (s' : Store) : Prop where
  values : ∀ q, s'.at? q = if q = p then some x else s.at? q
  sizes : ∀ name, s'.size? name = s.size? name

/-- An array that was not there has a size, and all else is as it was. -/
structure Grows (s : Store) (name : String) (n : Nat) (s' : Store) : Prop where
  new : s.size? name = none
  values : ∀ q, s'.at? q = s.at? q
  sizes : ∀ x, s'.size? x = if x = name then some n else s.size? x

/-- An array that was not there is added with its size and without elements, and all else is as it was. -/
structure Adds (s : Store) (name : String) (n : Nat) (s' : Store) : Prop extends s.Grows name n s' where
  fresh : ∀ i, s'.at? (.cell name i) = none

variable {s s' : Store} {name : String}

theorem sets_record (x : Float) : s.Sets (.scalar name) x (s.record name x) := by
  refine ⟨fun q => ?_, fun _ => rfl⟩
  cases q with
  | scalar y =>
    rw [at?, get?_record]
    by_cases hy : name = y <;> simp [hy, at?, eq_comm]
  | cell y i => rfl

/-- An element that is assigned is the one that its index stands for. -/
theorem sets_assign {index x : Float} (h : s.assign name index x = .ok s') :
    ∃ p, s.place? name (some index) = some p ∧ s.Sets p x s' := by
  obtain ⟨i, hslot, rfl⟩ := assign_eq_ok h
  refine ⟨.cell name i, by rw [place?, hslot], fun q => ?_, fun _ => rfl⟩
  cases q with
  | scalar y => rfl
  | cell y j =>
    rw [at?, cell?_insert]
    by_cases hy : name = y ∧ i = j
    · obtain ⟨rfl, rfl⟩ := hy
      simp
    · have hne : Place.cell y j ≠ .cell name i := by
        rintro ⟨⟩
        exact hy ⟨rfl, rfl⟩
      rw [if_neg hy, if_neg hne, at?]

/-- Only an index that the array does not accept is refused. -/
theorem place?_eq_none_of_assign {index x : Float} {e : StoreError} (h : s.assign name index x = .error e) :
    s.place? name (some index) = none := by
  unfold assign at h
  split at h
  · rename_i e hslot
    rw [place?, hslot]
  · cases h

theorem grows_declare {size : Float} {n : Nat} (h : s.declare name size = .ok (n, s')) :
    sizeOf size = .ok n ∧ s.Grows name n s' := by
  have hsizeOf : sizeOf size = .ok n := by
    unfold declare at h
    split at h
    · cases h
    · rename_i k hk
      split at h <;> cases h
      exact hk
  obtain ⟨hnew, -, -, hget, hsize, hcell⟩ := view_declare h
  refine ⟨hsizeOf, hnew, fun q => ?_, fun x => by rw [hsize]; simp [eq_comm]⟩
  cases q with
  | scalar y => exact hget y
  | cell y i => exact hcell y i

/-- Where elements belong to arrays, an array that is not declared has none. -/
theorem Grows.adds {n : Nat} (h : s.Grows name n s') (hs : s.Valid) : s.Adds name n s' := by
  refine ⟨h, fun i => ?_⟩
  rw [h.values, at?, ← Option.not_isSome_iff_eq_none]
  intro hi
  obtain ⟨k, hk, -⟩ := hs.elements name i hi
  rw [h.new] at hk
  cases hk

theorem adds_declare (hs : s.Valid) {size : Float} {n : Nat} (h : s.declare name size = .ok (n, s')) :
    sizeOf size = .ok n ∧ s.Adds name n s' :=
  ⟨(grows_declare h).1, (grows_declare h).2.adds hs⟩

end Store

end Primer
