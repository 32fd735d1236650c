import RecordStore.Sql.Clause
import RecordStore.Model.Kind

/-!
# Statements

The statements that are run against a database, each as a structure whose `pieces` are its text and
its parameters.
-/

namespace RecordStore

/-- A column of a table besides its primary key. -/
structure ColumnSpec where
  name : String
  type : ColumnType
  notNull : Bool
  unique : Bool
  default : Option SqlValue
deriving DecidableEq

/-- Creates a table with the primary key `_id` and the given columns, unless it is there. -/
structure CreateTable where
  table : String
  columns : List ColumnSpec
deriving DecidableEq

/-- A key that rows are ordered by: a column, or a path inside the JSON text of a column. -/
structure OrderTerm where
  column : String
  path : List String
  descending : Bool
deriving DecidableEq

/-- How many rows to show at most, after skipping some. -/
structure RowWindow where
  limit : Int64
  offset : Int64
deriving DecidableEq

structure Select where
  table : String
  columns : List String
  condition : Option Clause
  order : List OrderTerm
  window : Option RowWindow

structure Count where
  table : String
  condition : Option Clause

structure Exists where
  table : String
  condition : Option Clause

structure Insert where
  table : String
  cells : List (String × SqlValue)
deriving DecidableEq

structure Update where
  table : String
  cells : List (String × SqlValue)
  condition : Option Clause

structure Delete where
  table : String
  condition : Option Clause

def whereLine : Option Clause → List Piece
  | none => []
  | some clause => .ofString " WHERE " :: clause.pieces

namespace ColumnSpec

def pieces (c : ColumnSpec) : List Piece :=
  [.name c.name, .ofString (" " ++ c.type.word)]
    ++ (if c.notNull then [.ofString " NOT NULL"] else [])
    ++ (if c.unique then [.ofString " UNIQUE"] else [])
    ++ match c.default with
      | none => []
      | some value => [.ofString " DEFAULT ", .fixed value.literal]

end ColumnSpec

namespace CreateTable

def pieces (s : CreateTable) : List Piece :=
  [.ofString "CREATE TABLE IF NOT EXISTS ", .name s.table, .ofString " ("]
    ++ Piece.commas ([.name "_id", .ofString " INTEGER PRIMARY KEY AUTOINCREMENT"]
      :: s.columns.map ColumnSpec.pieces)
    ++ [.ofString ")"]

end CreateTable

namespace OrderTerm

def pieces (t : OrderTerm) : List Piece :=
  let direction := if t.descending then " DESC" else " ASC"
  match t.path with
  | [] => [.name t.column, .ofString direction]
  | path =>
    [.ofString "json_extract(", .name t.column,
      .fixed (", '$.".toList ++ joinWith ['.'] (path.map String.toList) ++ ['\'', ')']),
      .ofString direction]

end OrderTerm

namespace Select

def pieces (s : Select) : List Piece :=
  .ofString "SELECT " :: Piece.commas (s.columns.map fun name => [.name name])
    ++ [.ofString " FROM ", .name s.table]
    ++ whereLine s.condition
    ++ (match s.order with
      | [] => []
      | order => .ofString " ORDER BY " :: Piece.commas (order.map OrderTerm.pieces))
    ++ match s.window with
      | none => []
      | some window =>
        [.ofString " LIMIT ", .param (.integer window.limit), .ofString " OFFSET ",
          .param (.integer window.offset)]

end Select

namespace Count

def pieces (s : Count) : List Piece :=
  [.ofString "SELECT COUNT(*) FROM ", .name s.table] ++ whereLine s.condition

end Count

namespace Exists

def pieces (s : Exists) : List Piece :=
  [.ofString "SELECT EXISTS(SELECT 1 FROM ", .name s.table] ++ whereLine s.condition
    ++ [.ofString ")"]

end Exists

namespace Insert

def pieces (s : Insert) : List Piece :=
  match s.cells with
  | [] => [.ofString "INSERT INTO ", .name s.table, .ofString " DEFAULT VALUES"]
  | cells =>
    [.ofString "INSERT INTO ", .name s.table, .ofString " ("]
      ++ Piece.commas (cells.map fun (name, _) => [.name name])
      ++ .ofString ") VALUES " :: Clause.operandPieces (cells.map (·.2))

end Insert

namespace Update

def pieces (s : Update) : List Piece :=
  [.ofString "UPDATE ", .name s.table, .ofString " SET "]
    ++ Piece.commas (s.cells.map fun (name, value) => [.name name, .ofString " = ", .param value])
    ++ whereLine s.condition

end Update

namespace Delete

def pieces (s : Delete) : List Piece :=
  [.ofString "DELETE FROM ", .name s.table] ++ whereLine s.condition

end Delete

end RecordStore
