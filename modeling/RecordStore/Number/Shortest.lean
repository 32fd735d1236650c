import RecordStore.Number.Decimal

/-!
# The text of a double

`Binary64.shortest` is the decimal number with the fewest digits that reads back as the given
double, and among those with as few digits the nearest one. `FloatStyle` says how its digits are
set out; the styles in use are values of that type.
-/

namespace RecordStore

/-- `10^k ≤ num / den`. -/
def tenPowerLe (k : Int) (num den : Nat) : Bool :=
  match k with
  | .ofNat k => tenTo k * den ≤ num
  | .negSucc k => den ≤ num * tenTo (k + 1)

/-- The exponent of the leading decimal digit of `num / den`. The estimate from the binary
logarithms is off by one at most. -/
def leadingExponent (num den : Nat) : Int :=
  let estimate := ((num.log2 : Int) - den.log2) * 1233 / 4096
  if tenPowerLe (estimate + 1) num den then estimate + 1
  else if tenPowerLe estimate num den then estimate
  else estimate - 1

/-- `num / den` over `10^k`, as a fraction. -/
def overTenPower (k : Int) (num den : Nat) : Nat × Nat :=
  match k with
  | .ofNat k => (num, den * tenTo k)
  | .negSucc k => (num * tenTo (k + 1), den)

/-- Moves zeros at the end of the coefficient into the exponent, at most `fuel` of them. -/
def Decimal.stripZeros : Nat → Decimal → Decimal
  | 0, d => d
  | fuel + 1, d =>
    if d.coefficient ≠ 0 ∧ d.coefficient % 10 = 0 then
      stripZeros fuel { d with coefficient := d.coefficient / 10, exponent := d.exponent + 1 }
    else d

namespace Binary64

/-- The decimal number nearest to `x` among the two neighbours of `x` on the grid of `10^k` that
read back as `x`; of two equally near ones that with the even last digit. -/
def onGrid? (x : Binary64) (k : Int) : Option Decimal :=
  let (num, den) := overTenPower k x.units unitsInOne
  let lower : Decimal := ⟨x.negative, num / den, k⟩
  let upper : Decimal := ⟨x.negative, num / den + 1, k⟩
  let r := num % den
  let preferLower := 2 * r < den ∨ (2 * r = den ∧ num / den % 2 = 0)
  let (first, second) := if preferLower then (lower, upper) else (upper, lower)
  if first.toDouble = .finite x then some first
  else if second.toDouble = .finite x then some second
  else none

def exactDecimal (x : Binary64) : Decimal := ⟨x.negative, x.units * Nat.pow 5 1074, -1074⟩

/-- The shortest decimal number that reads back as `x`. Seventeen digits are always enough, so the
exact value behind them is never needed; it makes the law that the result reads back immediate. -/
def shortest (x : Binary64) : Decimal :=
  if x.mantissa = 0 then ⟨x.negative, 0, 0⟩
  else
    let leading := leadingExponent x.units unitsInOne
    let found := (List.range 17).findSome? fun (n : Nat) => x.onGrid? (leading - n)
    (found.getD x.exactDecimal).stripZeros 1100

end Binary64

/-- How the digits of a double are set out. -/
structure FloatStyle where
  /-- The least exponent of the leading digit that is written with a point only. -/
  least : Int
  /-- The greatest exponent of the leading digit that is written with a point only. -/
  most : Int
  /-- Whether a whole number keeps a point and a zero. -/
  wholePoint : Bool
  /-- Whether a positive exponent has a plus sign. -/
  plusSign : Bool

namespace FloatStyle

def positional (style : FloatStyle) (digits : List Char) (lead : Int) : List Char :=
  match lead with
  | .negSucc n => '0' :: '.' :: (List.replicate n '0' ++ digits)
  | .ofNat n =>
    if digits.length ≤ n + 1 then
      digits ++ List.replicate (n + 1 - digits.length) '0'
        ++ (if style.wholePoint then ['.', '0'] else [])
    else digits.take (n + 1) ++ '.' :: digits.drop (n + 1)

def scientific (style : FloatStyle) (digits : List Char) (lead : Int) : List Char :=
  let exponent := match lead with
    | .ofNat n => (if style.plusSign then ['+'] else []) ++ Nat.toDigits 10 n
    | .negSucc n => '-' :: Nat.toDigits 10 (n + 1)
  let mantissa := match digits with
    | first :: second :: rest => first :: '.' :: second :: rest
    | digits => digits
  mantissa ++ 'e' :: exponent

def ofDecimal (style : FloatStyle) (d : Decimal) : List Char :=
  let digits := Nat.toDigits 10 d.coefficient
  let lead := d.exponent + digits.length - 1
  let magnitude :=
    if style.least ≤ lead ∧ lead ≤ style.most then style.positional digits lead
    else style.scientific digits lead
  if d.negative then '-' :: magnitude else magnitude

def text (style : FloatStyle) (x : Binary64) : List Char := style.ofDecimal x.shortest

/-- Numbers in JSON text have a point or an exponent, a point only from `10^-5` up to `10^16`, and a
sign before every exponent. -/
def json : FloatStyle := ⟨-5, 15, true, true⟩

/-- Numbers in SQL text have a point or an exponent, and a point only from `10^-4` up to `10^16`. -/
def literal : FloatStyle := ⟨-4, 15, true, false⟩

/-- Numbers turned into plain text are written out in full, whole ones without a point. -/
def plain : FloatStyle := ⟨-400, 400, false, false⟩

end FloatStyle

def Double.text (style : FloatStyle) : Double → List Char
  | .finite x => style.text x
  | .infinity negative => if negative then "-inf".toList else "inf".toList
  | .nan => "NaN".toList

end RecordStore
