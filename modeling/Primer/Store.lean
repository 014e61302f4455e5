import Primer.Number.Decimal
import Std.Data.ExtTreeMap

/-!
# The store

Scalars and arrays, each under its own names.  A scalar exists once it has been recorded.  An array
has the size that it was declared with for good, and an element without a value is not zero.
-/

namespace Primer

/-- Elements are ordered by the names of their arrays, and within an array by their slots. -/
def elementOrder : String × Nat → String × Nat → Ordering :=
  compareLex (compareOn Prod.fst) (compareOn Prod.snd)

instance : Std.TransCmp elementOrder :=
  inferInstanceAs (Std.TransCmp (compareLex (compareOn Prod.fst) (compareOn Prod.snd)))

instance : Std.LawfulEqCmp elementOrder where
  eq_of_compare h := by
    obtain ⟨hname, hslot⟩ := compareLex_eq_eq.mp h
    exact Prod.ext (Std.LawfulEqOrd.eq_of_compare hname) (Std.LawfulEqOrd.eq_of_compare hslot)

/-- Scalars by name, the sizes of arrays by name, and the elements that hold a value by the name of
their array and their slot. -/
structure Store where
  scalars : Std.ExtTreeMap String Float
  sizes : Std.ExtTreeMap String Nat
  elements : Std.ExtTreeMap (String × Nat) Float elementOrder

/-- Why a store refuses an operation on an array. -/
inductive StoreError where
  | invalidSize (size : Float)
  | fractionalSize (size : Float)
  | redeclared (name : String)
  | undeclared (name : String)
  | fractionalIndex (index : Float)
  | negativeIndex (index : Float)
  | outOfBounds (name : String) (index size : Nat)
  deriving DecidableEq

namespace StoreError

def message : StoreError → String
  | .invalidSize size =>
    s!"Size of array is invalid. Got {Number.render size}, expected a positive number."
  | .fractionalSize size => s!"Size of array must be a whole number. Got {Number.render size}."
  | .redeclared _ => "Cannot redeclare an existing array."
  | .undeclared name => s!"'{name}' has not been declared as an array"
  | .fractionalIndex index =>
    s!"The given array index, {Number.render index}, is not a whole number. " ++
      "Index must be a whole number."
  | .negativeIndex index =>
    s!"The given array index, {Number.render index}, is negative. Index must be a positive number."
  | .outOfBounds name index size =>
    s!"Array index '{index}' is out of bounds of the array '{name}', which is of size {size}."

def help? : StoreError → Option String
  | .undeclared name => some s!"declare it first with 'dim {name}[<size>];'"
  | .outOfBounds _ _ size => some s!"valid indices run from 0 to {size - 1}"
  | _ => none

end StoreError

namespace Store

def empty : Store := ⟨∅, ∅, ∅⟩

instance : Inhabited Store := ⟨empty⟩

/-! ### Scalars -/

def record (s : Store) (name : String) (value : Float) : Store :=
  { s with scalars := s.scalars.insert name value }

def get? (s : Store) (name : String) : Option Float := s.scalars[name]?

/-! ### Arrays -/

/-- Sizes and indices stop here. -/
def sizeLimit : Nat := Nat.pow 2 64 - 1

def size? (s : Store) (name : String) : Option Nat := s.sizes[name]?

def isDeclared (s : Store) (name : String) : Bool := s.sizes.contains name

/-- The size that a number asks for: a positive whole number, cut at the limit. -/
def sizeOf (size : Float) : Except StoreError Nat :=
  match Number.denote size with
  | .nan | .infinite true => .error (.invalidSize size)
  | .infinite false => .error (.fractionalSize size)
  | .finite negative units =>
    if negative || units = 0 then .error (.invalidSize size)
    else match Number.whole? units with
      | none => .error (.fractionalSize size)
      | some n => .ok (min n sizeLimit)

/-- Adds an array and gives its size. -/
def declare (s : Store) (name : String) (size : Float) : Except StoreError (Nat × Store) :=
  match sizeOf size with
  | .error e => .error e
  | .ok n =>
    if s.isDeclared name then .error (.redeclared name)
    else .ok (n, { s with sizes := s.sizes.insert name n })

/-- The slot that an index selects in an array: a whole number that is not negative, cut at the
limit, and below the size. -/
def slot (s : Store) (name : String) (index : Float) : Except StoreError Nat :=
  match s.size? name with
  | none => .error (.undeclared name)
  | some size =>
    match Number.denote index with
    | .nan | .infinite _ => .error (.fractionalIndex index)
    | .finite negative units =>
      match Number.whole? units with
      | none => .error (.fractionalIndex index)
      | some n =>
        if negative && n ≠ 0 then .error (.negativeIndex index)
        else if size ≤ min n sizeLimit then .error (.outOfBounds name (min n sizeLimit) size)
        else .ok (min n sizeLimit)

def assign (s : Store) (name : String) (index value : Float) : Except StoreError Store :=
  match s.slot name index with
  | .error e => .error e
  | .ok i => .ok { s with elements := s.elements.insert (name, i) value }

/-- The value of an element; `none` if the index is valid and nothing was stored there. -/
def element? (s : Store) (name : String) (index : Float) : Except StoreError (Option Float) :=
  match s.slot name index with
  | .error e => .error e
  | .ok i => .ok s.elements[(name, i)]?

end Store

end Primer
