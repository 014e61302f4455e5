/-!
# Exact values of double-precision numbers

A finite number is a whole count of the smallest positive one, `2 ^ -1074`.  `denote` gives that
count with the sign, and `nearest` finds the magnitude that lies nearest to a fraction.  Every
decision about whole numbers, digits and rounding is made on these counts and none on rounded
arithmetic.
-/

namespace Primer.Number

/-- What a number stands for: `finite negative n` is `n * 2 ^ -1074` with that sign. -/
inductive Denotation where
  | nan
  | infinite (negative : Bool)
  | finite (negative : Bool) (units : Nat)
  deriving DecidableEq

/-- The number of units in one. -/
def unitsPerOne : Nat := Nat.pow 2 1074

/-- The pattern of a sign bit alone. -/
def signBit : Nat := Nat.pow 2 63

/-- The number of patterns over which the distance between neighbours stays the same. -/
def blockSize : Nat := Nat.pow 2 52

/-- The magnitude pattern of the infinities; larger ones are no numbers. -/
def infinityPattern : Nat := 2047 * blockSize

/-- The units of a magnitude pattern below `infinityPattern`.  Patterns in the first two blocks count
units one by one; each later block doubles the distance. -/
def unitsOfPattern (pattern : Nat) : Nat :=
  let scale := pattern / blockSize - 1
  (pattern - scale * blockSize) * Nat.pow 2 scale

/-- The quotient rounded to the nearest whole number, a half to the even one. -/
def roundDiv (num den : Nat) : Nat :=
  let quotient := num / den
  let twice := 2 * (num % den)
  if twice < den then quotient
  else if den < twice then quotient + 1
  else quotient + quotient % 2

/-- The pattern of the magnitude nearest to `num / den`, a half to the even pattern. -/
def nearest (num den : Nat) : Nat :=
  let scale := Nat.log2 (num * unitsPerOne / den) - 52
  min infinityPattern
    (scale * blockSize + roundDiv (num * unitsPerOne) (den * Nat.pow 2 scale))

/-- The number with this sign and magnitude pattern. -/
def ofPattern (negative : Bool) (pattern : Nat) : Float :=
  Float.ofBits (UInt64.ofNat (if negative then signBit + pattern else pattern))

/-- The magnitude pattern: all bits but the sign. -/
def pattern (x : Float) : Nat := x.toBits.toNat % signBit

/-- Whether the sign bit is set. -/
def isNegative (x : Float) : Bool := signBit ≤ x.toBits.toNat

/-- What `x` stands for. -/
def denote (x : Float) : Denotation :=
  if pattern x < infinityPattern then .finite (isNegative x) (unitsOfPattern (pattern x))
  else if pattern x = infinityPattern then .infinite (isNegative x)
  else .nan

/-- The whole number that `units` make up, if they make up one. -/
def whole? (units : Nat) : Option Nat :=
  if units % unitsPerOne = 0 then some (units / unitsPerOne) else none

end Primer.Number
