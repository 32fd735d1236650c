import RecordStore.Sql.Statement
import RecordStore.Database.Reals

/-!
# Storage and comparison of values

The type of a column decides how a value is stored in it and how a value is compared with it:
numbers become text in a text column, and text that denotes a number becomes that number in the
others. Values of different classes are ordered `NULL`, numbers, text; numbers by their exact
values, text by its code points.
-/

namespace RecordStore

namespace SqlValue

def isNumberBlank (c : Char) : Bool :=
  c = ' ' || c = '\t' || c = '\n' || c = '\x0b' || c = '\x0c' || c = '\r'

/-- The number that a numeral stands for: an integer that fits a signed word, or otherwise a real. -/
def ofNumeral? (text : List Char) : Option SqlValue :=
  let real := (Decimal.ofText? text).map fun d => .real d.toReal
  match integerOfText? text with
  | some n => if FitsInt64 n then some (.integer (Int64.ofInt n)) else real
  | none => real

/-- The number that a text denotes, with blanks around it or not. -/
def numberOfText? (s : String) : Option SqlValue :=
  ofNumeral? ((s.toList.dropWhile isNumberBlank).reverse.dropWhile isNumberBlank).reverse

/-- The value that is read where this one stands as a constant. -/
def asConstant : SqlValue → SqlValue
  | .real (.finite x) => .real (x.reread .literal)
  | value => value

def toNumber : SqlValue → SqlValue
  | .text s => (numberOfText? s).getD (.text s)
  | value => value

/-- A double as a signed word if it is a whole number strictly between the least and the greatest
word. -/
def wholeNumber : SqlValue → SqlValue
  | .real (.finite x) =>
    match x.toInt? with
    | some n =>
      if FitsInt64 (n - 1) ∧ FitsInt64 (n + 1) then .integer (Int64.ofInt n)
      else .real (.finite x)
    | none => .real (.finite x)
  | value => value

def numberText : SqlValue → SqlValue
  | .integer n => .text (String.ofList (integerChars n.toInt))
  | .real (.finite x) => .text (String.ofList x.storedText)
  | .real (.infinity negative) => .text (if negative then "-Inf" else "Inf")
  | .real .nan => .null
  | value => value

def doubled : SqlValue → SqlValue
  | .integer n => .real (.ofInt n.toInt)
  | .real (.finite x) => .real (.finite (if x.mantissa = 0 then .zero false else x))
  | value => value

def stored : ColumnType → SqlValue → SqlValue
  | .integer, value => wholeNumber (toNumber value)
  | .real, value => doubled (toNumber value)
  | .text, value => numberText value

/-- The value as it is compared with a column of the given type; no type leaves it as it is. -/
def comparable : Option ColumnType → SqlValue → SqlValue
  | none, value => value
  | some .text, value => numberText value
  | some _, value => toNumber value

/-- The order of values: `NULL`, then numbers by their exact values, then text by its code
points. -/
def order : SqlValue → SqlValue → Ordering
  | .null, .null => .eq
  | .null, _ => .lt
  | _, .null => .gt
  | .integer a, .integer b => compare a.toInt b.toInt
  | .integer a, .real y => Double.compareInt a.toInt y
  | .real x, .integer b => (Double.compareInt b.toInt x).swap
  | .real x, .real y => x.compareValue y
  | .text a, .text b => compare a b
  | .text _, _ => .gt
  | _, .text _ => .lt

/-- The order of the cell of a column and an operand, unless one of them is `NULL`. -/
def compareCell (type : Option ColumnType) (cell operand : SqlValue) : Option Ordering :=
  if cell = .null ∨ operand = .null then none
  else some (cell.order (operand.comparable type))

end SqlValue

end RecordStore
