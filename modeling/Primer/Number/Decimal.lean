import Primer.Number.Binary

/-!
# Decimal text of numbers

`read?` reads a sign, digits and at most one point, and gives the nearest number.  `render` writes
the fewest digits that `read?` takes back to the same number, always positionally.
-/

namespace Primer.Number

/-- The decimal fraction `digits * 10 ^ exponent`. -/
structure Decimal where
  digits : Nat
  exponent : Int
  deriving DecidableEq

/-- The pattern of the magnitude nearest to a decimal fraction. -/
def Decimal.pattern (d : Decimal) : Nat :=
  nearest (d.digits * Nat.pow 10 d.exponent.toNat) (Nat.pow 10 (-d.exponent).toNat)

/-- The number nearest to a decimal fraction with a sign. -/
def ofDecimal (negative : Bool) (d : Decimal) : Float :=
  ofPattern negative d.pattern

/-- The value of a run of decimal digits. -/
def digitsValue (ds : List Char) : Nat :=
  ds.foldl (fun n c => 10 * n + (c.toNat - '0'.toNat)) 0

/-- Splits off one sign; `true` is a minus. -/
def splitSign : List Char → Bool × List Char
  | '+' :: rest => (false, rest)
  | '-' :: rest => (true, rest)
  | text => (false, text)

/-- Reads a numeral: at most one sign, digits with at most one point, and at least one digit. -/
def read? (text : List Char) : Option Float :=
  let (negative, body) := splitSign text
  let (whole, rest) := body.span Char.isDigit
  let (fraction, rest) := match rest with
    | '.' :: rest => rest.span Char.isDigit
    | rest => ([], rest)
  let digits := whole ++ fraction
  if rest.isEmpty && !digits.isEmpty then
    some (ofDecimal negative ⟨digitsValue digits, -fraction.length⟩)
  else none

/-- The two decimal fractions around `units` with the given exponent, below and above. -/
def neighbours (units : Nat) (exponent : Int) : Decimal × Decimal :=
  let digits :=
    units * Nat.pow 10 (-exponent).toNat / (unitsPerOne * Nat.pow 10 exponent.toNat)
  (⟨digits, exponent⟩, ⟨digits + 1, exponent⟩)

/-- Of the neighbours with one exponent, one that reads back as `pattern`: the nearer one if both
do, the upper one at equal distance. -/
def hit? (pattern : Nat) (exponent : Int) : Option Decimal :=
  let units := unitsOfPattern pattern
  let (below, above) := neighbours units exponent
  -- twice the value against the sum of the neighbours
  let byDistance :=
    if 2 * units * Nat.pow 10 (-exponent).toNat <
        (below.digits + above.digits) * unitsPerOne * Nat.pow 10 exponent.toNat
    then [below, above] else [above, below]
  byDistance.find? (·.pattern = pattern)

/-- The first hit at an exponent of `steps - 1074` or less.  The last exponent holds every number
exactly. -/
def search (pattern steps : Nat) : Decimal :=
  let exponents := (List.range' 1 steps).reverse.map (Int.ofNat · - 1074)
  (exponents.findSome? (hit? pattern)).getD (neighbours (unitsOfPattern pattern) (-1074)).1

/-- The shortest decimal fraction that reads back as `pattern`.  The search starts at a power of ten
above twice the value, where no neighbour reads back. -/
def shortest (pattern : Nat) : Decimal :=
  search pattern (753 + 302 * Nat.log2 (unitsOfPattern pattern) / 1000)

/-- Writes a decimal fraction without an exponent and with a digit before the point. -/
def Decimal.layout (d : Decimal) : List Char :=
  let digits := Nat.toDigits 10 d.digits
  match d.exponent with
  | .ofNat zeros => digits ++ List.replicate zeros '0'
  | .negSucc n =>
    let places := n + 1
    let padded := List.replicate (places + 1 - digits.length) '0' ++ digits
    let (whole, fraction) := padded.splitAt (padded.length - places)
    whole ++ ['.'] ++ fraction

/-- The text of a number, as programs print it and messages show it. -/
def render (x : Float) : String :=
  match denote x with
  | .nan => "NaN"
  | .infinite negative => if negative then "-inf" else "inf"
  | .finite negative units =>
    let body := if units = 0 then ['0'] else (shortest (pattern x)).layout
    String.ofList (if negative then '-' :: body else body)

end Primer.Number
