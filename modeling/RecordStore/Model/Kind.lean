import RecordStore.Sql.Value
import RecordStore.Json.Reader

/-!
# Kinds of fields

The kind of a field says which JSON values it takes and how they are stored. `FieldKind.encode?`
turns a value into a cell and `FieldKind.decode` turns a cell back into a value.
-/

namespace RecordStore

inductive FieldKind
  | int
  | float
  | text
  | bool
  /-- Any JSON value but `null`, stored as its text. -/
  | json
deriving DecidableEq

inductive ColumnType
  | integer
  | real
  | text
deriving DecidableEq

def ColumnType.word : ColumnType → String
  | .integer => "INTEGER"
  | .real => "REAL"
  | .text => "TEXT"

namespace FieldKind

def word : FieldKind → String
  | .int => "int"
  | .float => "float"
  | .text => "text"
  | .bool => "bool"
  | .json => "json"

def title : FieldKind → String
  | .int => "Int"
  | .float => "Float"
  | .text => "Text"
  | .bool => "Bool"
  | .json => "Json"

def all : List FieldKind := [.int, .float, .text, .bool, .json]

def ofWord? (word : String) : Option FieldKind := all.find? (·.word = word)

def columnType : FieldKind → ColumnType
  | .int | .bool => .integer
  | .float => .real
  | .text | .json => .text

/-- The cell that holds a value other than `null`, if the kind takes it. -/
def encode? : FieldKind → Json → Option SqlValue
  | .int, .number n => n.toInt64?.map .integer
  | .float, .number n => some (.real n.toDouble)
  | .text, .string s => some (.text s)
  | .bool, .bool b => some (.ofBool b)
  | .json, value => some (.text value.text)
  | _, _ => none

/-- The value that a cell holds. -/
def decode : FieldKind → SqlValue → Json
  | _, .null => .null
  | .bool, .integer n => .bool (n ≠ 0)
  | _, .integer n => .ofInt64 n
  | _, .real (.finite x) => .number (.float x)
  | _, .real _ => .null
  | .json, .text s => ((Json.read s).toOption).getD (.string s)
  | _, .text s => .string s

end FieldKind

end RecordStore
