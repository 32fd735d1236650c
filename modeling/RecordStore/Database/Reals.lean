import RecordStore.Number.Basic

/-!
# Reals of the database

The database turns decimal text into a real, and a real into decimal text, by multiplying with powers
of ten one after another in a format of 64 leading bits. The powers are rounded to that format, and so
is every product. The outcome is close to the nearest real but not always the nearest one, so that a
real need not be read back from its shortest text.
-/

namespace RecordStore

/-! ## The extended format

A number is counted in units of `2^-1400`. Numbers that are not settled at once are so large that all
their 64 bits count whole units. -/

namespace Extended

def one : Nat := twoTo 1400

/-- The smallest positive double. -/
def smallestDouble : Nat := twoTo 326

/-- The extended number nearest to a quotient. -/
def nearest (num den : Nat) : Nat := roundedTo 64 num den

def tenPower : Int → Nat
  | .ofNat k => nearest (tenTo k * one) 1
  | .negSucc k => nearest one (tenTo (k + 1))

/-- The number times a power of ten. -/
def timesTen (k : Int) (x : Nat) : Nat := nearest (x * tenPower k) one

/-- The number times `10^(sign·e)`, hundred, ten and one at a time. -/
def scale (sign : Int) (e x : Nat) : Nat :=
  Nat.repeat (timesTen sign) (e % 10)
    (Nat.repeat (timesTen (sign * 10)) (e % 100 / 10)
      (Nat.repeat (timesTen (sign * 100)) (e / 100) x))

/-- The number times `10^k`, again and again as long as it is not where it should be, and how often
`k` was taken off the exponent. -/
def approach (far : Nat → Bool) (k : Int) : Nat → Nat × Int → Nat × Int
  | 0, found => found
  | fuel + 1, (x, exponent) =>
    if far x then approach far k fuel (timesTen k x, exponent - k) else (x, exponent)

/-- The largest double. -/
def largestDouble : Nat := (twoTo 53 - 1) * twoTo 2045 * smallestDouble

def toDouble (negative : Bool) (x : Nat) : Double :=
  if largestDouble < x then .infinity negative else .ofUnits negative x smallestDouble

end Extended

/-! ## Reading a real -/

namespace Decimal

/-- A coefficient with as many digits as it takes to fill a word, and how many digits follow. -/
def fillWord : Nat → Nat → Nat × Nat
  | 0, coefficient => (coefficient, 0)
  | fuel + 1, coefficient =>
    if (maxWord - 9) / 10 ≤ coefficient / 10 then
      let (word, dropped) := fillWord fuel (coefficient / 10)
      (word, dropped + 1)
    else (coefficient, 0)

/-- Brings the exponent closer to zero, by zeros behind the word as long as there is room for them, or
by taking zeros off its end. -/
def settle : Nat → Nat → Int → Nat × Int
  | 0, word, exponent => (word, exponent)
  | fuel + 1, word, exponent =>
    if 0 < exponent ∧ word < maxWord / 10 then settle fuel (word * 10) (exponent - 1)
    else if exponent < 0 ∧ word % 10 = 0 then settle fuel (word / 10) (exponent + 1)
    else (word, exponent)

/-- The real that the database reads a decimal number as. Exponents far outside the range of doubles
are settled at once. -/
def toReal (d : Decimal) : Double :=
  if d.coefficient = 0 then .finite (.zero d.negative)
  else
    let (word, dropped) := fillWord d.coefficient.log2 d.coefficient
    match settle 20 word (d.exponent + dropped) with
    | (word, .ofNat e) =>
      if 400 ≤ e then .infinity d.negative
      else Extended.toDouble d.negative (Extended.scale 1 e (word * Extended.one))
    | (word, .negSucc e) =>
      if 400 ≤ e then .finite (.zero d.negative)
      else Extended.toDouble d.negative (Extended.scale (-1) (e + 1) (word * Extended.one))

end Decimal

/-- The real that the text of a double is read as. -/
def Binary64.reread (style : FloatStyle) (x : Binary64) : Double :=
  ((Decimal.ofText? (style.text x)).map Decimal.toReal).getD .nan

/-! ## Writing a real -/

namespace Binary64

/-- A number between `10^17` and `10^19` that makes up the magnitude with a power of ten. -/
def leadingWord (x : Binary64) : Nat × Int :=
  let start := (x.units * Extended.smallestDouble, 0)
  let above (k : Int) (y : Nat) : Bool := Extended.tenPower k ≤ y
  let below (k : Int) (y : Nat) : Bool := y < Extended.tenPower k
  let (y, exponent) :=
    if above 19 start.1 then
      Extended.approach (above 19) (-1) 12 (Extended.approach (above 29) (-10) 12
        (Extended.approach (above 119) (-100) 12 start))
    else
      Extended.approach (below 17) 1 12 (Extended.approach (below 7) 10 12
        (Extended.approach (below (-97)) 100 12 start))
  (y / Extended.one, exponent)

/-- Decimal text with fifteen significant digits, a half rounded up, always with a point. It has an
exponent of at least two digits below `10^-4` and from `10^15` on. -/
def storedText (x : Binary64) : List Char :=
  let sign := if x.signedUnits < 0 then ['-'] else []
  if x.mantissa = 0 then ['0', '.', '0']
  else
    let (word, exponent) := x.leadingWord
    let size := (Nat.toDigits 10 word).length
    let unit := tenTo (size - 15)
    let rounded := (word + unit / 2) / unit
    let carried := rounded = tenTo 15
    let lead := size + exponent - (if carried then 0 else 1)
    let d := Decimal.stripZeros 15 ⟨false, if carried then tenTo 14 else rounded, 0⟩
    let digits := Nat.toDigits 10 d.coefficient
    if -4 ≤ lead ∧ lead ≤ 14 then sign ++ FloatStyle.json.positional digits lead
    else
      let mantissa := match digits with
        | first :: rest => first :: '.' :: (if rest = [] then ['0'] else rest)
        | [] => []
      let size := Nat.toDigits 10 lead.natAbs
      let padded := if size.length < 2 then '0' :: size else size
      sign ++ mantissa ++ ['e', if lead < 0 then '-' else '+'] ++ padded

end Binary64

end RecordStore
