import RecordStore.Number.Binary64

/-!
# Decimal numbers and their text

`Decimal` is a sign, a coefficient and a power of ten: what the text of a number denotes before it
is rounded. `Decimal.toDouble` is the nearest double, computed exactly, and `Decimal.ofText?` reads
the plain grammar of decimal numbers: an optional sign, digits with at most one point and at least
one digit, and an optional exponent.
-/

namespace RecordStore

/-- The number `±coefficient · 10^exponent`. -/
structure Decimal where
  negative : Bool
  coefficient : Nat
  exponent : Int
deriving DecidableEq, Repr

namespace Decimal

/-- The double nearest to a decimal number. Exponents far outside the range of doubles are settled
without computing the power of ten: `10^309` exceeds every finite double, and `10^-k < 2^(-3k)`
puts small numbers below half the smallest one. -/
def toDouble (d : Decimal) : Double :=
  if d.coefficient = 0 then .finite (.zero d.negative)
  else match d.exponent with
    | .ofNat e =>
      if 309 ≤ e then .infinity d.negative
      else .ofUnits d.negative (d.coefficient * tenTo e * Binary64.unitsInOne) 1
    | .negSucc e =>
      if d.coefficient.log2 + 1077 ≤ 3 * (e + 1) then .finite (.zero d.negative)
      else .ofUnits d.negative (d.coefficient * Binary64.unitsInOne) (tenTo (e + 1))

/-- A sign in front of a number: whether it is a minus, and the text after it. -/
def splitSign : List Char → Bool × List Char
  | '-' :: rest => (true, rest)
  | '+' :: rest => (false, rest)
  | text => (false, text)

/-- The exponent after the mantissa: nothing, or `e` with an optional sign and at least one
digit. -/
def exponentOf? : List Char → Option Int
  | [] => some 0
  | c :: rest =>
    if c = 'e' ∨ c = 'E' then
      let (negative, digits) := splitSign rest
      if digits = [] ∨ ¬ digits.all Char.isDigit then none
      else
        let n : Int := Nat.ofDigitChars 10 digits 0
        some (if negative then -n else n)
    else none

def unsigned? (negative : Bool) (text : List Char) : Option Decimal :=
  let whole := text.takeWhile Char.isDigit
  let rest := text.dropWhile Char.isDigit
  let (fraction, rest) := match rest with
    | '.' :: rest => (rest.takeWhile Char.isDigit, rest.dropWhile Char.isDigit)
    | _ => ([], rest)
  if whole = [] ∧ fraction = [] then none
  else do
    let exponent ← exponentOf? rest
    some ⟨negative, Nat.ofDigitChars 10 (whole ++ fraction) 0, exponent - fraction.length⟩

def ofText? (text : List Char) : Option Decimal :=
  let (negative, rest) := splitSign text
  unsigned? negative rest

end Decimal

/-- The double that a text denotes: a decimal number, or an infinity or not-a-number spelled out in
letters of either case. -/
def Double.ofText? (text : List Char) : Option Double :=
  let (negative, rest) := Decimal.splitSign text
  let word := rest.map Char.toLower
  if word = "inf".toList ∨ word = "infinity".toList then some (.infinity negative)
  else if word = "nan".toList then some .nan
  else (Decimal.unsigned? negative rest).map Decimal.toDouble

/-- The integer that a text denotes: an optional sign and at least one digit. -/
def integerOfText? (text : List Char) : Option Int :=
  let (negative, digits) := Decimal.splitSign text
  if digits = [] ∨ ¬ digits.all Char.isDigit then none
  else
    let n : Int := Nat.ofDigitChars 10 digits 0
    some (if negative then -n else n)

end RecordStore
