import Mathlib.Data.List.Dedup
import Mathlib.Data.List.Induction
import Primer.Proofs.Store.Changes

/-!
# Histories of a store

A store answers as if it looked through all that has been done to it.  The history of a store is the list of
the operations on it with their answers, the latest first.  A scalar has the value that it was last recorded
with, an array the size that its declaration answered, and a slot the value of the last assignment to it that
was not refused.

* `Store.perform s op`: the answer to an operation, and the store behind it.
* `Store.answerOf past op`: the answer that a history has to an operation.
* `Store.Follows s past`: the store holds what the history says.
* `Store.Operation.heeds q op`: the answer to `q` may depend on `op`.
* `Store.perform_follows`, `Store.Follows.answer`: each operation is answered and recorded as the history says.
* `Store.refines_history`: so it is for all operations on an empty store.
-/

namespace Primer

/-- The integer that `x` is, if it is one. -/
def Number.integer? (x : Float) : Option Int :=
  match denote x with
  | .finite negative units => (whole? units).map fun n => if negative then -(n : Int) else n
  | _ => none

namespace Store

/-- What can be done to the scalars and the arrays of a store. -/
inductive Operation where
  | record (name : String) (value : Float)
  | get (name : String)
  | contains (name : String)
  | count
  | declare (name : String) (size : Float)
  | assign (name : String) (index value : Float)
  | element (name : String) (index : Float)
  | size (name : String)
  | isDeclared (name : String)
  deriving DecidableEq

/-- What an operation answers. -/
inductive Answer where
  | done
  | value (value : Option Float)
  | count (scalars : Nat)
  | declared (size : Nat)
  | size (size : Option Nat)
  | flag (holds : Bool)
  | refused (e : StoreError)
  deriving DecidableEq

/-- The answer to an operation, and the store behind it. -/
def perform (s : Store) : Operation → Answer × Store
  | .record name value => (.done, s.record name value)
  | .get name => (.value (s.get? name), s)
  | .contains name => (.flag (s.scalars.contains name), s)
  | .count => (.count s.scalars.size, s)
  | .declare name size =>
    match s.declare name size with
    | .ok (n, s') => (.declared n, s')
    | .error e => (.refused e, s)
  | .assign name index value =>
    match s.assign name index value with
    | .ok s' => (.done, s')
    | .error e => (.refused e, s)
  | .element name index =>
    match s.element? name index with
    | .ok value => (.value value, s)
    | .error e => (.refused e, s)
  | .size name => (.size (s.size? name), s)
  | .isDeclared name => (.flag (s.isDeclared name), s)

/-! ### The answers of a history -/

/-- An operation with its answer. -/
abbrev Event := Operation × Answer

/-- The name of the scalar that is recorded. -/
def recordedName? : Event → Option String
  | (.record name _, _) => some name
  | _ => none

/-- The value that the scalar `x` is recorded with. -/
def recorded? (x : String) : Event → Option Float
  | (.record name value, _) => if name = x then some value else none
  | _ => none

/-- The size that the array `a` is declared with. -/
def declared? (a : String) : Event → Option Nat
  | (.declare name _, .declared n) => if name = a then some n else none
  | _ => none

/-- The value that is assigned to slot `i` of the array `a`. -/
def assigned? (a : String) (i : Nat) : Event → Option Float
  | (.assign name index value, .done) =>
    if name = a ∧ Number.integer? index = some (i : Int) then some value else none
  | _ => none

/-- The slot that an index selects in an array of the given size, if there is one. -/
def slotOf (name : String) (index : Float) : Option Nat → Except StoreError Nat
  | none => .error (.undeclared name)
  | some size =>
    match Number.integer? index with
    | none => .error (.fractionalIndex index)
    | some (.negSucc _) => .error (.negativeIndex index)
    | some (.ofNat i) =>
      if i < size then .ok i else .error (.outOfBounds name (min i sizeLimit) size)

/-- The answer that a history has, the latest event first. -/
def answerOf (past : List Event) : Operation → Answer
  | .record _ _ => .done
  | .get name => .value (past.findSome? (recorded? name))
  | .contains name => .flag (past.findSome? (recorded? name)).isSome
  | .count => .count (past.filterMap recordedName?).dedup.length
  | .declare name size =>
    match sizeOf size with
    | .error e => .refused e
    | .ok n =>
      if (past.findSome? (declared? name)).isSome then .refused (.redeclared name) else .declared n
  | .assign name index _ =>
    match slotOf name index (past.findSome? (declared? name)) with
    | .error e => .refused e
    | .ok _ => .done
  | .element name index =>
    match slotOf name index (past.findSome? (declared? name)) with
    | .error e => .refused e
    | .ok i => .value (past.findSome? (assigned? name i))
  | .size name => .size (past.findSome? (declared? name))
  | .isDeclared name => .flag (past.findSome? (declared? name)).isSome

/-! ### Slots -/

variable {s : Store} {name : String} {index : Float}

/-- A slot is selected by the integer that the index is. -/
theorem integer?_of_slotOf {size : Option Nat} {i : Nat} (h : slotOf name index size = .ok i) :
    Number.integer? index = some (i : Int) := by
  unfold slotOf at h
  split at h
  · cases h
  · split at h
    · cases h
    · cases h
    · rename_i k hk
      split at h <;> cases h
      exact hk

/-- The slot of an index depends on the size of the array alone. -/
theorem slot_eq_slotOf (hlimit : ∀ n, s.size? name = some n → n ≤ sizeLimit) :
    s.slot name index = slotOf name index (s.size? name) := by
  unfold slot
  cases hsize : s.size? name with
  | none => rfl
  | some size =>
    have hle := hlimit _ hsize
    -- an index beyond all sizes is cut at the limit, which is out of bounds as well
    have hbounds : ∀ n, (if size ≤ min n sizeLimit then
        Except.error (StoreError.outOfBounds name (min n sizeLimit) size) else Except.ok (min n sizeLimit)) =
      if n < size then .ok n else .error (.outOfBounds name (min n sizeLimit) size) := by
      intro n
      by_cases hn : n < size
      · rw [if_pos hn, if_neg (by omega), Nat.min_eq_left (by omega)]
      · rw [if_neg hn, if_pos (by omega)]
    simp only [slotOf, Number.integer?]
    cases Number.denote index with
    | nan => rfl
    | infinite negative => rfl
    | finite negative units =>
      dsimp only
      cases Number.whole? units with
      | none => rfl
      | some n =>
        cases negative with
        | false => exact hbounds n
        | true =>
          cases n with
          | zero => exact hbounds 0
          | succ n => rfl

/-! ### Operations -/

/-- The event changes nothing. -/
structure Silent (e : Event) : Prop where
  name : recordedName? e = none := by rfl
  recorded : ∀ x, recorded? x e = none := by exact fun _ => rfl
  declared : ∀ a, declared? a e = none := by exact fun _ => rfl
  assigned : ∀ a i, assigned? a i e = none := by exact fun _ _ => rfl

/-- What an operation can do: set a scalar, add an array, set a slot, or nothing. -/
theorem perform_cases (s : Store) (op : Operation) :
    (∃ name value, op = .record name value ∧ s.perform op = (.done, s.record name value)) ∨
    (∃ name size n s', op = .declare name size ∧ s.declare name size = .ok (n, s') ∧
      s.perform op = (.declared n, s')) ∨
    (∃ name index value i, op = .assign name index value ∧ s.slot name index = .ok i ∧
      s.perform op = (.done, { s with elements := s.elements.insert (name, i) value })) ∨
    ∃ answer, s.perform op = (answer, s) ∧ Silent (op, answer) := by
  cases op with
  | record name value => exact .inl ⟨name, value, rfl, rfl⟩
  | declare name size =>
    cases h : s.declare name size with
    | ok r =>
      obtain ⟨n, s'⟩ := r
      exact .inr (.inl ⟨name, size, n, s', rfl, h, by simp [perform, h]⟩)
    | error e =>
      exact .inr (.inr (.inr ⟨.refused e, by simp [perform, h], {}⟩))
  | assign name index value =>
    cases h : s.slot name index with
    | ok i => exact .inr (.inr (.inl ⟨name, index, value, i, rfl, h, by simp [perform, assign, h]⟩))
    | error e =>
      exact .inr (.inr (.inr ⟨.refused e, by simp [perform, assign, h], {}⟩))
  | element name index =>
    refine .inr (.inr (.inr ?_))
    cases h : s.element? name index with
    | ok value => exact ⟨.value value, by simp [perform, h], {}⟩
    | error e => exact ⟨.refused e, by simp [perform, h], {}⟩
  | _ => exact .inr (.inr (.inr ⟨_, rfl, {}⟩))

theorem perform_of_refused {op : Operation} {e : StoreError} (h : (s.perform op).1 = .refused e) :
    (s.perform op).2 = s := by
  rcases perform_cases s op with ⟨_, _, -, hop⟩ | ⟨_, _, _, _, -, -, hop⟩ | ⟨_, _, _, _, -, -, hop⟩ |
    ⟨_, hop, -⟩
  · simp [hop] at h
  · simp [hop] at h
  · simp [hop] at h
  · rw [hop]

/-! ### Stores and histories -/

/-- The store holds what the history says. -/
structure Follows (s : Store) (past : List Event) : Prop where
  scalars (x : String) : s.get? x = past.findSome? (recorded? x)
  count : s.scalars.size = (past.filterMap recordedName?).dedup.length
  sizes (a : String) : s.size? a = past.findSome? (declared? a)
  limit (a : String) (n : Nat) : s.size? a = some n → n ≤ sizeLimit
  cells (a : String) (i : Nat) : s.cell? a i = past.findSome? (assigned? a i)
  /-- No array has been declared twice. -/
  once (a : String) : past.countP (fun e => (declared? a e).isSome) ≤ 1

theorem follows_nil : empty.Follows [] where
  scalars x := by simp [get?, empty]
  count := rfl
  sizes a := by simp [size?, empty]
  limit a n h := by simp [size?, empty] at h
  cells a i := by simp [cell?, empty]
  once a := Nat.zero_le 1

/-- The scalars are those that have been recorded. -/
theorem mem_recordedNames {past : List Event} {x : String} :
    x ∈ past.filterMap recordedName? ↔ (past.findSome? (recorded? x)).isSome = true := by
  simp only [List.mem_filterMap, List.findSome?_isSome_iff]
  refine exists_congr fun e => and_congr_right fun _ => ?_
  obtain ⟨op, answer⟩ := e
  cases op with
  | record name value =>
    by_cases hx : name = x
    · simp [recordedName?, recorded?, hx]
    · simp [recordedName?, recorded?, hx]
  | _ => simp [recordedName?, recorded?]

theorem Follows.silent {past : List Event} {e : Event} (h : s.Follows past) (he : Silent e) :
    s.Follows (e :: past) where
  scalars x := by rw [List.findSome?_cons, he.recorded, h.scalars]
  count := by rw [List.filterMap_cons, he.name, h.count]
  sizes a := by rw [List.findSome?_cons, he.declared, h.sizes]
  limit := h.limit
  cells a i := by rw [List.findSome?_cons, he.assigned, h.cells]
  once a := by
    rw [List.countP_cons, he.declared]
    exact h.once a

theorem contains_scalars (x : String) : s.scalars.contains x = (s.get? x).isSome :=
  Std.ExtTreeMap.contains_eq_isSome_getElem?

theorem Follows.record {past : List Event} (h : s.Follows past) (name : String) (value : Float) :
    (s.record name value).Follows ((.record name value, .done) :: past) where
  scalars x := by
    rw [get?_record, List.findSome?_cons, h.scalars]
    by_cases hx : name = x
    · simp [recorded?, hx]
    · simp [recorded?, hx]
  count := by
    have hmem : s.scalars.contains name = true ↔ name ∈ past.filterMap recordedName? := by
      rw [mem_recordedNames, contains_scalars, h.scalars]
    show (s.scalars.insert name value).size = (name :: past.filterMap recordedName?).dedup.length
    rw [Std.ExtTreeMap.size_insert, h.count]
    by_cases hname : name ∈ past.filterMap recordedName?
    · rw [if_pos (hmem.mpr hname), List.dedup_cons_of_mem hname]
    · rw [if_neg fun hs => hname (hmem.mp hs), List.dedup_cons_of_notMem hname, List.length_cons]
  sizes := h.sizes
  limit := h.limit
  cells := h.cells
  once := h.once

/-- An array is declared where no declaration of it has been answered. -/
theorem Follows.declare {past : List Event} {size : Float} {n : Nat} {s' : Store} (h : s.Follows past)
    (hdeclare : s.declare name size = .ok (n, s')) :
    s'.Follows ((.declare name size, .declared n) :: past) := by
  obtain ⟨hnew, -, hlimit, hget, hsize, hcell⟩ := view_declare hdeclare
  refine ⟨fun x => (hget x).trans (h.scalars x), ?_, fun a => ?_, fun a k hk => ?_,
    fun a i => (hcell a i).trans (h.cells a i), fun a => ?_⟩
  · obtain ⟨-, -, -, rfl⟩ := declare_eq_ok hdeclare
    exact h.count
  · rw [hsize, List.findSome?_cons, h.sizes]
    by_cases ha : name = a
    · simp [declared?, ha]
    · simp [declared?, ha]
  · rw [hsize] at hk
    split at hk
    · cases hk
      exact hlimit
    · exact h.limit a k hk
  · rw [List.countP_cons]
    by_cases ha : name = a
    · rw [h.sizes, ha] at hnew
      have hzero : past.countP (fun e => (declared? a e).isSome) = 0 := by
        rw [List.countP_eq_zero]
        intro e he
        simp [List.findSome?_eq_none_iff.mp hnew e he]
      rw [hzero]
      split <;> omega
    · simpa [declared?, ha] using h.once a

theorem Follows.slot {past : List Event} (h : s.Follows past) (name : String) (index : Float) :
    s.slot name index = slotOf name index (past.findSome? (declared? name)) := by
  rw [← h.sizes]
  exact slot_eq_slotOf (h.limit name)

theorem Follows.assign {past : List Event} {i : Nat} (h : s.Follows past)
    (hslot : s.slot name index = .ok i) (value : Float) :
    Follows { s with elements := s.elements.insert (name, i) value }
      ((.assign name index value, .done) :: past) := by
  have hindex : Number.integer? index = some (i : Int) := by
    rw [h.slot name index] at hslot
    exact integer?_of_slotOf hslot
  refine ⟨h.scalars, h.count, h.sizes, h.limit, fun a j => ?_, h.once⟩
  have hassigned : assigned? a j (.assign name index value, .done) =
      if name = a ∧ i = j then some value else none := by
    simp only [assigned?, hindex, Option.some.injEq, Int.natCast_inj]
  rw [cell?_insert, List.findSome?_cons, hassigned, h.cells]
  split
  · rfl
  · rfl

/-- An operation leads to a store that holds what the longer history says. -/
theorem perform_follows {past : List Event} (h : s.Follows past) (op : Operation) :
    (s.perform op).2.Follows ((op, (s.perform op).1) :: past) := by
  rcases perform_cases s op with ⟨name, value, rfl, hop⟩ | ⟨name, size, n, s', rfl, hdeclare, hop⟩ |
    ⟨name, index, value, i, rfl, hslot, hop⟩ | ⟨answer, hop, hsilent⟩
  · rw [hop]
    exact h.record name value
  · rw [hop]
    exact h.declare hdeclare
  · rw [hop]
    exact h.assign hslot value
  · rw [hop]
    exact h.silent hsilent

/-- An operation is answered as the history says. -/
theorem Follows.answer {past : List Event} (h : s.Follows past) (op : Operation) :
    (s.perform op).1 = answerOf past op := by
  cases op with
  | record name value => rfl
  | get name => exact congrArg Answer.value (h.scalars name)
  | contains name =>
    rw [answerOf, ← h.scalars, ← contains_scalars]
    rfl
  | count => exact congrArg Answer.count h.count
  | declare name size =>
    rw [answerOf, ← h.sizes, perform, Store.declare, isDeclared_eq]
    cases sizeOf size with
    | error e => rfl
    | ok n =>
      by_cases hdeclared : (s.size? name).isSome = true
      · simp only [if_pos hdeclared]
      · simp only [if_neg hdeclared]
  | assign name index value =>
    rw [answerOf, ← h.slot name index, perform, Store.assign]
    cases s.slot name index with
    | error e => rfl
    | ok r => rfl
  | element name index =>
    rw [answerOf, ← h.slot name index, perform, element?]
    cases s.slot name index with
    | error e => rfl
    | ok i => exact congrArg Answer.value (h.cells name i)
  | size name => exact congrArg Answer.size (h.sizes name)
  | isDeclared name =>
    rw [answerOf, ← h.sizes, ← isDeclared_eq]
    rfl

/-! ### What an answer depends on -/

/-- The array that an operation is about. -/
def Operation.array? : Operation → Option String
  | .declare a _ => some a
  | .assign a _ _ => some a
  | .element a _ => some a
  | .size a => some a
  | .isDeclared a => some a
  | _ => none

/-- The answer to an operation may depend on an earlier one: on what is recorded under its name, on
declarations of its array, and on assignments to its slot. -/
def Operation.heeds (q : Operation) : Operation → Bool
  | .record name _ =>
    match q with
    | .get x => x = name
    | .contains x => x = name
    | .count => true
    | _ => false
  | .declare name _ => q.array? = some name
  | .assign name index _ =>
    match q with
    | .element a index' => a = name ∧ Number.integer? index' = Number.integer? index
    | _ => false
  | _ => false

theorem Operation.heeds_trans {q op op' : Operation} (h : q.heeds op = true) (h' : op.heeds op' = true) :
    q.heeds op' = true := by
  cases op with
  | record name value => cases op' <;> simp [heeds, array?] at h'
  | declare name size =>
    cases op' with
    | declare name' size' =>
      obtain rfl : name = name' := by simpa [heeds, array?] using h'
      exact h
    | _ => simp [heeds] at h'
  | assign name index value =>
    cases op' with
    | declare name' size =>
      obtain rfl : name = name' := by simpa [heeds, array?] using h'
      cases q with
      | element a index' =>
        simp only [heeds, decide_eq_true_eq] at h
        simp [heeds, array?, h.1]
      | _ => simp [heeds] at h
    | _ => simp [heeds] at h'
  | _ => simp [heeds] at h

section Filter

variable {past : List Event} {keep : Event → Bool} {e : Event}

theorem filterMap_filter_of_keep {β : Type} {f : Event → Option β}
    (h : ∀ e ∈ past, (f e).isSome = true → keep e = true) :
    (past.filter keep).filterMap f = past.filterMap f := by
  rw [List.filterMap_filter]
  refine List.filterMap_congr fun e he => ?_
  split
  · rfl
  · rename_i hdropped
    exact (Option.not_isSome_iff_eq_none.mp fun hsome => hdropped (h e he hsome)).symm

theorem findSome?_filter_of_keep {β : Type} {f : Event → Option β}
    (h : ∀ e ∈ past, (f e).isSome = true → keep e = true) :
    (past.filter keep).findSome? f = past.findSome? f := by
  rw [← List.head?_filterMap, filterMap_filter_of_keep h, List.head?_filterMap]

theorem record_of_recordedName? (h : (recordedName? e).isSome = true) :
    ∃ name value, e.1 = .record name value := by
  unfold recordedName? at h
  split at h
  · exact ⟨_, _, rfl⟩
  · cases h

theorem record_of_recorded? {x : String} (h : (recorded? x e).isSome = true) :
    ∃ value, e.1 = .record x value := by
  unfold recorded? at h
  split at h
  · split at h
    · rename_i hx
      exact ⟨_, by rw [← hx]⟩
    · cases h
  · cases h

theorem declare_of_declared? {a : String} (h : (declared? a e).isSome = true) :
    ∃ size, e.1 = .declare a size := by
  unfold declared? at h
  split at h
  · split at h
    · rename_i ha
      exact ⟨_, by rw [← ha]⟩
    · cases h
  · cases h

theorem assign_of_assigned? {a : String} {i : Nat} (h : (assigned? a i e).isSome = true) :
    ∃ index value, e.1 = .assign a index value ∧ Number.integer? index = some (i : Int) := by
  unfold assigned? at h
  split at h
  · split at h
    · rename_i ha
      exact ⟨_, _, by rw [← ha.1], ha.2⟩
    · cases h
  · cases h

/-- A history that keeps all that an operation heeds has the same answer to it. -/
theorem answerOf_filter {q : Operation} (h : ∀ e ∈ past, q.heeds e.1 = true → keep e = true) :
    answerOf (past.filter keep) q = answerOf past q := by
  have hrecorded : ∀ x, (∀ value, q.heeds (.record x value) = true) →
      (past.filter keep).findSome? (recorded? x) = past.findSome? (recorded? x) := by
    intro x hq
    refine findSome?_filter_of_keep fun e he hsome => ?_
    obtain ⟨value, hop⟩ := record_of_recorded? hsome
    exact h e he (hop ▸ hq value)
  have hdeclared : ∀ a, q.array? = some a →
      (past.filter keep).findSome? (declared? a) = past.findSome? (declared? a) := by
    intro a hq
    refine findSome?_filter_of_keep fun e he hsome => ?_
    obtain ⟨size, hop⟩ := declare_of_declared? hsome
    refine h e he ?_
    simp [hop, Operation.heeds, hq]
  cases q with
  | record name value => rfl
  | get name => rw [answerOf, answerOf, hrecorded name (by simp [Operation.heeds])]
  | contains name => rw [answerOf, answerOf, hrecorded name (by simp [Operation.heeds])]
  | count =>
    have hnames : (past.filter keep).filterMap recordedName? = past.filterMap recordedName? := by
      refine filterMap_filter_of_keep fun e he hsome => ?_
      obtain ⟨name, value, hop⟩ := record_of_recordedName? hsome
      exact h e he (hop ▸ rfl)
    rw [answerOf, answerOf, hnames]
  | declare name size => rw [answerOf, answerOf, hdeclared name rfl]
  | assign name index value => rw [answerOf, answerOf, hdeclared name rfl]
  | element name index =>
    rw [answerOf, answerOf, hdeclared name rfl]
    cases hslot : slotOf name index (past.findSome? (declared? name)) with
    | error e => rfl
    | ok i =>
      refine congrArg Answer.value (findSome?_filter_of_keep fun e he hsome => ?_)
      obtain ⟨index', value, hop, hindex'⟩ := assign_of_assigned? hsome
      refine h e he ?_
      simp [hop, Operation.heeds, integer?_of_slotOf hslot, hindex']
  | size name => rw [answerOf, answerOf, hdeclared name rfl]
  | isDeclared name => rw [answerOf, answerOf, hdeclared name rfl]

end Filter

/-! ### Sequences of operations -/

/-- The store behind operations on an empty one. -/
def after (ops : List Operation) : Store := ops.foldl (fun s op => (s.perform op).2) empty

/-- Operations in their order, each with its answer. -/
def events (s : Store) : List Operation → List Event
  | [] => []
  | op :: ops => (op, (s.perform op).1) :: (s.perform op).2.events ops

/-- The history of operations on an empty store, the latest first. -/
def history (ops : List Operation) : List Event := (empty.events ops).reverse

theorem events_append (s : Store) (ops ops' : List Operation) :
    s.events (ops ++ ops') =
      s.events ops ++ (ops.foldl (fun s op => (s.perform op).2) s).events ops' := by
  induction ops generalizing s with
  | nil => rfl
  | cons op ops ih =>
    simp only [List.cons_append, events, List.foldl_cons]
    rw [ih]

theorem after_concat (ops : List Operation) (op : Operation) :
    after (ops ++ [op]) = ((after ops).perform op).2 := by
  simp [after, List.foldl_append]

theorem history_concat (ops : List Operation) (op : Operation) :
    history (ops ++ [op]) = (op, ((after ops).perform op).1) :: history ops := by
  unfold history
  rw [events_append, List.reverse_append]
  rfl

theorem follows_history (ops : List Operation) : (after ops).Follows (history ops) := by
  induction ops using List.reverseRecOn with
  | nil => exact follows_nil
  | append_singleton ops op ih =>
    rw [after_concat, history_concat]
    exact perform_follows ih op

/-- Without the operations that `q` does not heed, the others are answered in the same way. -/
theorem history_filter (q : Operation) (ops : List Operation) :
    history (ops.filter q.heeds) = (history ops).filter fun e => q.heeds e.1 := by
  induction ops using List.reverseRecOn with
  | nil => rfl
  | append_singleton ops op ih =>
    rw [List.filter_append, history_concat, List.filter_cons, List.filter_cons, List.filter_nil]
    by_cases hop : q.heeds op = true
    · have hanswer : ((after (ops.filter q.heeds)).perform op).1 = ((after ops).perform op).1 := by
        rw [(follows_history _).answer, (follows_history _).answer, ih]
        exact answerOf_filter fun e _ he => Operation.heeds_trans hop he
      rw [if_pos hop, if_pos hop, history_concat, hanswer, ih]
    · rw [if_neg hop, if_neg hop, List.append_nil, ih]

/-- **A store is its history.**  After any operations, each operation is answered from their history; no array
is declared twice; without an operation that was refused, all that follows is answered in the same way; and so
it is without all operations on other scalars, arrays and slots. -/
theorem refines_history (ops : List Operation) (op : Operation) :
    ((after ops).perform op).1 = answerOf (history ops) op ∧
    (∀ a, (history ops).countP (fun e => (declared? a e).isSome) ≤ 1) ∧
    (∀ e, ((after ops).perform op).1 = .refused e → ∀ more q,
      ((after (ops ++ op :: more)).perform q).1 = ((after (ops ++ more)).perform q).1) ∧
    ((after (ops.filter op.heeds)).perform op).1 = ((after ops).perform op).1 := by
  refine ⟨(follows_history ops).answer op, (follows_history ops).once, fun e he more q => ?_, ?_⟩
  · have hstore : after (ops ++ op :: more) = after (ops ++ more) := by
      simp only [after, List.foldl_append, List.foldl_cons]
      exact congrArg (more.foldl _) (perform_of_refused he)
    rw [hstore]
  · rw [(follows_history _).answer, (follows_history _).answer, history_filter]
    exact answerOf_filter fun e _ he => he

-- zero and minus zero are one slot, and a second declaration is refused
example : history [.declare "a" 2.0, .record "a" 7.0, .assign "a" 0.0 5.0, .declare "a" 3.0,
      .element "a" (-0.0), .element "a" 1.0] =
    [(.element "a" 1.0, .value none), (.element "a" (-0.0), .value (some 5.0)),
      (.declare "a" 3.0, .refused (.redeclared "a")), (.assign "a" 0.0 5.0, .done),
      (.record "a" 7.0, .done), (.declare "a" 2.0, .declared 2)] := by decide +kernel

end Store

end Primer
