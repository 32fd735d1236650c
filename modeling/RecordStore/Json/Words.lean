import RecordStore.Number.Basic

/-!
# Doubles from digits

`Json.wordDouble` turns the digits of a number into a double as JSON text is read: the digits are
taken into a word as long as they fit, the word is rounded to a double, and the double is multiplied
with a power of ten or divided by it, which rounds once more. So the outcome is close to the nearest
double but not always the nearest one.
-/

namespace RecordStore

/-- How a double is made of the digits of a number before and behind its point, and of its
exponent. -/
abbrev FloatReading := (negative : Bool) → (whole fraction : List Char) → (exponent : Int) → Double

namespace Json

/-- The nearest double. -/
def nearestDouble : FloatReading := fun negative whole fraction exponent =>
  Decimal.toDouble ⟨negative, Nat.ofDigitChars 10 (whole ++ fraction) 0, exponent - fraction.length⟩

/-- Takes digits into a word as long as they fit, and says which are left. -/
def intoWord (word : Nat) : List Char → Nat × List Char
  | [] => (word, [])
  | c :: rest =>
    let next := word * 10 + (c.toNat - '0'.toNat)
    if next ≤ maxWord then intoWord next rest else (word, c :: rest)

/-- The units of the double nearest to a quotient, which is counted in units of `2^-1074`. -/
def nearestUnits (num den : Nat) : Nat := roundedTo 53 num den

/-- The units of the double nearest to a power of ten. -/
def powerUnits (e : Nat) : Nat := nearestUnits (tenTo e * Binary64.unitsInOne) 1

/-- Divides by `10^308` again and again, as long as something is left. -/
def lower : Nat → Nat → Nat
  | 0, units => units
  | n + 1, units =>
    if units = 0 then 0 else lower n (nearestUnits (units * Binary64.unitsInOne) (powerUnits 308))

/-- A word times a power of ten, where the word, the power and the product are each rounded. -/
def scaleWord (negative : Bool) (word : Nat) (exponent : Int) : Double :=
  let units := nearestUnits (word * Binary64.unitsInOne) 1
  match exponent with
  | .ofNat e =>
    if word = 0 then .finite (.zero negative)
    else if 308 < e then .infinity negative
    else .ofUnits negative (units * powerUnits e) Binary64.unitsInOne
  | .negSucc e =>
    .ofUnits negative (lower (e / 308) units * Binary64.unitsInOne) (powerUnits (e % 308 + 1))

/-- The double that digits are read as. What does not fit into the word counts for its number of
digits before the point, and for nothing behind it. -/
def wordDouble : FloatReading := fun negative whole fraction exponent =>
  let (high, dropped) := intoWord 0 whole
  let (word, ignored) := intoWord high fraction
  scaleWord negative word (exponent + dropped.length - (fraction.length - ignored.length : Nat))

end Json

end RecordStore
