import RecordStore.Database.Basic
import RecordStore.Model.Definition

/-!
# Database images

A database as the text that its file holds between runs: a JSON array of the tables with their
columns and rows. `Database.ofImage?` reads what `Database.image` writes; any other text is no
database.
-/

namespace RecordStore

namespace SqlValue

/-- A value in an image. A double is kept as its text, so that every double has one. -/
def toImage : SqlValue → Json
  | .null => .null
  | .integer n => .ofInt64 n
  | .real x => .object [("real", .string (String.ofList (x.text .json)))]
  | .text s => .string s

def ofImage? : Json → Option SqlValue
  | .null => some .null
  | .number n => n.toInt64?.map .integer
  | .object [("real", .string s)] => (Double.ofText? s.toList).map .real
  | .string s => some (.text s)
  | _ => none

end SqlValue

namespace ColumnType

def ofWord? (word : String) : Option ColumnType :=
  [ColumnType.integer, .real, .text].find? (·.word = word)

end ColumnType

namespace ColumnSpec

def toImage (c : ColumnSpec) : Json :=
  .array [.string c.name, .string c.type.word, .bool c.notNull, .bool c.unique,
    .array (c.default.toList.map SqlValue.toImage)]

def ofImage? : Json → Option ColumnSpec
  | .array [.string name, .string word, .bool notNull, .bool unique, .array default] => do
    let type ← ColumnType.ofWord? word
    let default ← default.mapM SqlValue.ofImage?
    some ⟨name, type, notNull, unique, default.head?⟩
  | _ => none

end ColumnSpec

namespace Row

def toImage (r : Row) : Json := .array (.ofInt64 r.id :: r.cells.map SqlValue.toImage)

def ofImage? : Json → Option Row
  | .array (id :: cells) => do
    let id ← id.toInt64?
    let cells ← cells.mapM SqlValue.ofImage?
    some ⟨id, cells⟩
  | _ => none

end Row

namespace Table

def toImage (t : Table) : Json :=
  .array [.string t.name, .array (t.columns.map ColumnSpec.toImage),
    .array (t.rows.map Row.toImage), .ofInt64 t.sequence]

def ofImage? : Json → Option Table
  | .array [.string name, .array columns, .array rows, sequence] => do
    let columns ← columns.mapM ColumnSpec.ofImage?
    let rows ← rows.mapM Row.ofImage?
    let sequence ← sequence.toInt64?
    some ⟨name, columns, rows, sequence⟩
  | _ => none

end Table

namespace Database

/-- The text of the file of a database. -/
def image (db : Database) : String := (Json.array (db.tables.map Table.toImage)).text

/-- The database whose file holds a text. -/
def ofImage? (text : String) : Option Database :=
  match Json.read text with
  | .ok (.array tables) => (tables.mapM Table.ofImage?).map (⟨·, .default⟩)
  | _ => none

end Database

end RecordStore
