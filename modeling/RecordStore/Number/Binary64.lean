import RecordStore.Number.Power

/-!
# Doubles

A finite double is a sign and a magnitude counted in units of `2^-1074`, the smallest positive
double. Counting in units makes every magnitude a natural number, so that comparison is comparison
of integers and rounding is rounding of a quotient; no machine arithmetic is involved. The two
infinities and not-a-number are kept apart from the finite values, because text and numbers that
people write can only denote finite ones.
-/

namespace RecordStore

/-- A finite double in canonical form: its magnitude is `mantissa · 2^shift` units of `2^-1074`.
The leading bit of the mantissa is set unless the value is below the normal range. -/
structure Binary64 where
  negative : Bool
  mantissa : Nat
  shift : Nat
  canonical : mantissa < twoTo 53 ∧ shift ≤ 2045 ∧ (twoTo 52 ≤ mantissa ∨ shift = 0)
deriving DecidableEq

/-- A double: finite, infinite with a sign, or not a number. -/
inductive Double
  | finite (x : Binary64)
  | infinity (negative : Bool)
  | nan
deriving DecidableEq

namespace Binary64

def zero (negative : Bool := false) : Binary64 := ⟨negative, 0, 0, by decide⟩

/-- The magnitude in units of `2^-1074`. -/
def units (x : Binary64) : Nat := x.mantissa * twoTo x.shift

/-- The value in units of `2^-1074`; the two zeros have the same value. -/
def signedUnits (x : Binary64) : Int := if x.negative then -(x.units : Int) else x.units

def unitsInOne : Nat := twoTo 1074

def toInt? (x : Binary64) : Option Int :=
  if x.units % unitsInOne = 0 then
    some (if x.negative then -(x.units / unitsInOne : Nat) else (x.units / unitsInOne : Nat))
  else none

end Binary64

/-- The quotient rounded to the nearest whole number, a half going to the even neighbour. -/
def roundHalfEven (num den : Nat) : Nat :=
  let q := num / den
  let r := num % den
  if 2 * r < den then q
  else if den < 2 * r then q + 1
  else q + q % 2

/-- The quotient rounded to its leading bits, as many as given, a half going to the even neighbour. -/
def roundedTo (bits num den : Nat) : Nat :=
  let shift := (num / den).log2 + 1 - bits
  roundHalfEven num (den * twoTo shift) * twoTo shift

namespace Double

/-- The double nearest to `num / den` units of `2^-1074`, a half going to the even mantissa, and
infinity from half a step above the largest finite value on. -/
def ofUnits (negative : Bool) (num den : Nat) : Double :=
  let shift := (num / den).log2 - 52
  let rounded := roundHalfEven num (den * twoTo shift)
  let carried := rounded = twoTo 53
  let mantissa := if carried then twoTo 52 else rounded
  let shift := if carried then shift + 1 else shift
  if h : mantissa < twoTo 53 ∧ shift ≤ 2045 ∧ (twoTo 52 ≤ mantissa ∨ shift = 0) then
    .finite ⟨negative, mantissa, shift, h⟩
  else .infinity negative

def ofInt (n : Int) : Double :=
  ofUnits (n < 0) (n.natAbs * Binary64.unitsInOne) 1

/-- The order of the values on the extended line. Not-a-number has no place there; it is put
before everything else so that the order is total. -/
def compareValue : Double → Double → Ordering
  | .nan, .nan => .eq
  | .nan, _ => .lt
  | _, .nan => .gt
  | .infinity a, .infinity b => compare b a
  | .infinity a, .finite _ => if a then .lt else .gt
  | .finite _, .infinity b => if b then .gt else .lt
  | .finite x, .finite y => compare x.signedUnits y.signedUnits

/-- The order of an integer and a double by their exact values. -/
def compareInt (n : Int) : Double → Ordering
  | .nan => .gt
  | .infinity negative => if negative then .gt else .lt
  | .finite y => compare (n * Binary64.unitsInOne) y.signedUnits

end Double

end RecordStore
