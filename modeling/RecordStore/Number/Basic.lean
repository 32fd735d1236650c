import RecordStore.Number.Shortest

/-!
# Numbers

A number is an integer between `-2^63` and `2^64 - 1`, kept exactly, or a finite double. The two
never mix: an integer stays one until an operation asks for a double.
-/

namespace RecordStore

def maxInt64 : Nat := 9223372036854775807

def maxWord : Nat := 18446744073709551615

/-- Whether an integer fits a signed word of 64 bits. -/
def FitsInt64 (n : Int) : Prop := -9223372036854775808 ≤ n ∧ n ≤ 9223372036854775807

instance (n : Int) : Decidable (FitsInt64 n) := inferInstanceAs (Decidable (_ ∧ _))

/-- Whether an integer fits a word of 64 bits, signed or unsigned. -/
def Number.InRange (n : Int) : Prop := -9223372036854775808 ≤ n ∧ n ≤ 18446744073709551615

instance (n : Int) : Decidable (Number.InRange n) := inferInstanceAs (Decidable (_ ∧ _))

/-- Signed words are in range. -/
theorem FitsInt64.inRange {n : Int} (h : FitsInt64 n) : Number.InRange n := by
  unfold FitsInt64 at h
  unfold Number.InRange
  omega

/-- A number of JSON text. -/
inductive Number
  | integer (n : Int) (inRange : Number.InRange n)
  | float (x : Binary64)
deriving DecidableEq

structure NotANumber where
  text : String
deriving DecidableEq

def NotANumber.message (e : NotANumber) : String :=
  "The provided string " ++ e.text ++ " is not a number"

namespace Number

def ofInt64 (n : Int64) : Number :=
  .integer n.toInt (by have := n.le_toInt; have := n.toInt_lt; unfold InRange; omega)

def ofNat? (n : Nat) : Option Number :=
  if h : InRange n then some (.integer n h) else none

/-- The number as a signed word, if it is an integer that fits. -/
def toInt64? : Number → Option Int64
  | .integer n _ => if FitsInt64 n then some (Int64.ofInt n) else none
  | .float _ => none

def toDouble : Number → Double
  | .integer n _ => .ofInt n
  | .float x => .finite x

def text : Number → List Char
  | .integer n _ =>
    if n < 0 then '-' :: Nat.toDigits 10 n.natAbs else Nat.toDigits 10 n.natAbs
  | .float x => FloatStyle.json.text x

/-- The number that a text denotes: a signed word if the text is an integer that fits one, otherwise
a finite double if it is a decimal number. -/
def ofChars? (text : List Char) : Option Number :=
  let asFloat := match (Decimal.ofText? text).map Decimal.toDouble with
    | some (.finite x) => some (.float x)
    | _ => none
  match integerOfText? text with
  | some n =>
    if h : FitsInt64 n then some (.integer n h.inRange) else asFloat
  | none => asFloat

def ofText (text : String) : Except NotANumber Number :=
  match ofChars? text.toList with
  | some n => .ok n
  | none => .error ⟨text⟩

end Number

end RecordStore
