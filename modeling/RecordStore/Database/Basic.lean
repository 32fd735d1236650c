import RecordStore.Database.Planner
import RecordStore.Database.Limits

/-!
# Databases

A database is a list of tables with the planner that picks the ways through them, and statements are
run against it. A statement that is refused changes nothing; one that succeeds gives the database
after it.
-/

namespace RecordStore

/-- The tables of a database, in the order of their creation, and its planner. -/
structure Database where
  tables : List Table
  planner : Planner

namespace Database

def empty (planner : Planner) : Database := ⟨[], planner⟩

def table? (db : Database) (name : String) : Option Table :=
  db.tables.find? (sameName ·.name name)

def table (db : Database) (name : String) : Except DatabaseFault Table :=
  match db.table? name with
  | some t => .ok t
  | none => .error (.noSuchTable name)

/-- The database with a table replaced by another of the same name. -/
def setTable (db : Database) (t : Table) : Database :=
  { db with tables := db.tables.map fun other => if sameName other.name t.name then t else other }

/-- Whether the name of a table is kept for the database itself. -/
def isReservedName (name : String) : Bool :=
  "sqlite_".toList.isPrefixOf (name.toList.map Char.toLower)

/-- The refusal of a statement whose text holds a zero character in a constant: the text ends there,
inside the quotes. -/
def cutOff (s : CreateTable) (constant : String) : DatabaseFault :=
  let text := Piece.text s.pieces
  let read := text.toList.takeWhile (· ≠ '\x00')
  let token := '\'' :: doubleQuotes '\'' (constant.toList.takeWhile (· ≠ '\x00'))
  .unrecognizedToken (String.ofList token) text
    (String.ofList (read.take (read.length - token.length))).utf8ByteSize

/-- Checks that the text of a default can be written in a statement. -/
def checkDefault (s : CreateTable) : Option SqlValue → Except DatabaseFault Unit
  | some (.text constant) =>
    if constant.toList.contains '\x00' then .error (cutOff s constant) else .ok ()
  | _ => .ok ()

/-- Checks that there are not too many columns, and that none has the name of an earlier one. -/
def checkColumns (s : CreateTable) (earlier : List String) :
    List ColumnSpec → Except DatabaseFault Unit
  | [] => .ok ()
  | spec :: rest => do
    if columnLimit ≤ earlier.length then .error (.tooManyColumns s.table)
    else if earlier.any (sameName · spec.name) then .error (.duplicateColumn spec.name)
    else
      checkDefault s spec.default
      checkColumns s (spec.name :: earlier) rest

/-- Creates a table unless there is one of that name. -/
def createTable (db : Database) (s : CreateTable) : Except DatabaseFault Database :=
  if isReservedName s.table then .error (.reservedTable s.table)
  else match db.table? s.table with
    | some _ => do
      s.columns.forM fun spec => checkDefault s spec.default
      .ok db
    | none => do
      checkColumns s ["_id"] s.columns
      .ok { db with tables := db.tables ++ [⟨s.table, s.columns, [], 0⟩] }

/-- Reads rows, each as the values of the columns asked for. -/
def select (db : Database) (s : Select) : Except DatabaseFault (List (List SqlValue)) := do
  readText s.pieces s.demands
  let t ← db.table s.table
  checkSize "columns in result set" s.columns.length
  checkSize "terms in ORDER BY clause" s.order.length
  let rows ← sortRows s.order t (db.planner.visit t s.condition s.order)
  .ok ((RowWindow.show s.window rows).map fun row => s.columns.map fun name => (t.read row name).2)

def count (db : Database) (s : Count) : Except DatabaseFault Nat := do
  readText s.pieces s.demands
  let t ← db.table s.table
  .ok (t.matching s.condition).length

def exists? (db : Database) (s : Exists) : Except DatabaseFault Bool := do
  readText s.pieces s.demands
  let t ← db.table s.table
  s.checkLevels
  .ok (t.rows.any (Clause.selects s.condition t))

/-- Adds a row and gives its key. -/
def insert (db : Database) (s : Insert) : Except DatabaseFault (Database × Int64) := do
  readText s.pieces s.demands
  let t ← db.table s.table
  let (t, id) ← t.insert s.table s.cells
  .ok (db.setTable t, id)

/-- Changes rows and gives their number. -/
def update (db : Database) (s : Update) : Except DatabaseFault (Database × Nat) := do
  readText s.pieces s.demands
  checkSize "columns in set list" s.cells.length
  let t ← db.table s.table
  let (t, n) ← t.update s.cells s.condition
  .ok (db.setTable t, n)

/-- Removes rows and gives their number. -/
def delete (db : Database) (s : Delete) : Except DatabaseFault (Database × Nat) := do
  readText s.pieces s.demands
  let t ← db.table s.table
  let (t, n) := t.delete s.condition
  .ok (db.setTable t, n)

end Database

end RecordStore
