import RecordStore.Json.Printer
import RecordStore.Text.Quoted

/-!
# SQL values

The values that a statement carries as parameters and that the cells of a table hold, with the
conversion from JSON that gives a filter its operands and the form of a value as an SQL constant.
-/

namespace RecordStore

inductive SqlValue
  | null
  | integer (n : Int64)
  | real (x : Double)
  | text (s : String)
deriving DecidableEq

namespace SqlValue

def ofBool (b : Bool) : SqlValue := .integer (if b then 1 else 0)

/-- A number: an integer if it fits a signed word, otherwise the nearest double. -/
def ofNumber (n : Number) : SqlValue :=
  match n.toInt64? with
  | some i => .integer i
  | none => .real n.toDouble

/-- The value that stands for a JSON value where no field says how to store it. -/
def ofJson : Json → SqlValue
  | .null => .null
  | .bool b => ofBool b
  | .number n => ofNumber n
  | .string s => .text s
  | .array items => .text (Json.array items).text
  | .object members => .text (Json.object members).text

def integerChars (n : Int) : List Char :=
  if n < 0 then '-' :: Nat.toDigits 10 n.natAbs else Nat.toDigits 10 n.natAbs

def literal : SqlValue → List Char
  | .null => "NULL".toList
  | .integer n => integerChars n.toInt
  | .real x => x.text .literal
  | .text s => quotedText s

end SqlValue

end RecordStore
