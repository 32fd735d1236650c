import RecordStore.Database.Affinity
import RecordStore.Error

/-!
# Tables

A table has the columns it was created with and its rows in ascending order of their primary key. It
remembers the largest key that it ever assigned or was given. Names of tables and columns are
compared without regard to the case of ASCII letters.
-/

namespace RecordStore

/-- A row: its primary key, and a cell for each column in order. -/
structure Row where
  id : Int64
  cells : List SqlValue
deriving DecidableEq

structure Table where
  name : String
  columns : List ColumnSpec
  rows : List Row
  /-- The largest primary key that the table ever held, and zero before the first one. -/
  sequence : Int64
deriving DecidableEq

/-- A value in three-valued logic: true, false or unknown. -/
abbrev Truth := Option Bool

/-- All of the values are true; false as soon as one is. -/
def Truth.all : List Truth → Truth
  | [] => some true
  | value :: rest =>
    match value, Truth.all rest with
    | some false, _ | _, some false => some false
    | some true, some true => some true
    | _, _ => none

/-- Some of the values is true; true as soon as one is. -/
def Truth.any : List Truth → Truth
  | [] => some false
  | value :: rest =>
    match value, Truth.any rest with
    | some true, _ | _, some true => some true
    | some false, some false => some false
    | _, _ => none

def Truth.not (value : Truth) : Truth := value.map (!·)

/-- Whether two names are the same but for the case of ASCII letters. -/
def sameName (a b : String) : Bool := a.toList.map Char.toLower = b.toList.map Char.toLower

def isIdName (name : String) : Bool := sameName name "_id"

def assigned? (cells : List (String × SqlValue)) (name : String) : Option SqlValue :=
  (cells.find? fun (n, _) => sameName n name).map (·.2)

namespace Table

def hasColumn (t : Table) (name : String) : Bool :=
  isIdName name || t.columns.any (sameName ·.name name)

/-- The type and the cell of the column of that name, among cells in the order of the columns. -/
def lookup? (name : String) : List ColumnSpec → List SqlValue → Option (ColumnType × SqlValue)
  | spec :: specs, cell :: cells =>
    if sameName spec.name name then some (spec.type, cell) else lookup? name specs cells
  | _, _ => none

/-- What a name in quotes denotes for a row: a column with its type, or otherwise the text of the
name itself. -/
def read (t : Table) (row : Row) (name : String) : Option ColumnType × SqlValue :=
  if isIdName name then (some .integer, .integer row.id)
  else match lookup? name t.columns row.cells with
    | some (type, cell) => (some type, cell)
    | none => (none, .text name)

end Table

namespace Clause

/-- Whether a cell is among the operands: unknown if it is not but one of the comparisons is. -/
def isAmong (type : Option ColumnType) (cell : SqlValue) (operands : List SqlValue) : Truth :=
  Truth.any (operands.map fun operand => (cell.compareCell type operand).map (· = .eq))

mutual

def holds (t : Table) (row : Row) : Clause → Truth
  | .compare column relation operand =>
    let (type, cell) := t.read row column
    (cell.compareCell type operand).map relation.holds
  | .isNull column => some ((t.read row column).2 = .null)
  | .isNotNull column => some ((t.read row column).2 ≠ .null)
  | .oneOf column operands =>
    let (type, cell) := t.read row column
    isAmong type cell operands
  | .noneOf column operands =>
    let (type, cell) := t.read row column
    (isAmong type cell operands).not
  | .constant b => some b
  | .all parts => Truth.all (partsHold t row parts)
  | .any parts => Truth.any (partsHold t row parts)

def partsHold (t : Table) (row : Row) : List Clause → List Truth
  | [] => []
  | part :: rest => holds t row part :: partsHold t row rest

end

def selects (condition : Option Clause) (t : Table) (row : Row) : Bool :=
  match condition with
  | none => true
  | some clause => clause.holds t row = some true

end Clause

namespace Table

/-- The rows that meet a condition, in ascending order of their keys. -/
def matching (t : Table) (condition : Option Clause) : List Row :=
  t.rows.filter (Clause.selects condition t)

def checkNotNull (t : Table) (row : Row) : Except DatabaseFault Unit :=
  match (t.columns.zip row.cells).find? fun (spec, cell) => spec.notNull && cell = .null with
  | some (spec, _) => .error (.notNullViolated t.name spec.name)
  | none => .ok ()

/-- Whether a cell repeats a value of a unique column in other rows. -/
def repeats (t : Table) (others : List Row) (spec : ColumnSpec) (cell : SqlValue) : Bool :=
  spec.unique && cell ≠ .null &&
    others.any fun other =>
      match lookup? spec.name t.columns other.cells with
      | some (_, value) => cell.order value = .eq
      | none => false

/-- Checks that the key and the cells of unique columns differ from those of other rows. The columns
are checked from the last to the first. -/
def checkUnique (t : Table) (others : List Row) (row : Row) : Except DatabaseFault Unit :=
  if others.any (·.id = row.id) then .error (.uniqueViolated t.name "_id")
  else match (t.columns.zip row.cells).reverse.find? fun (spec, cell) =>
      t.repeats others spec cell with
    | some (spec, _) => .error (.uniqueViolated t.name spec.name)
    | none => .ok ()

/-- The rows with one more, at its place in the order of the keys. -/
def insertRow (row : Row) : List Row → List Row
  | [] => [row]
  | other :: rest =>
    if row.id < other.id then row :: other :: rest else other :: insertRow row rest

/-- The key that a new row gets: one more than the largest that the table ever held. -/
def nextId (t : Table) : Except DatabaseFault Int64 :=
  let last := t.rows.foldl (fun n row => max n row.id.toInt) t.sequence.toInt
  if FitsInt64 (last + 1) then .ok (Int64.ofInt (last + 1)) else .error .full

def idOfValue (value : SqlValue) : Except DatabaseFault Int64 :=
  match value.stored .integer with
  | .integer id => .ok id
  | _ => .error .datatypeMismatch

/-- The key of a new row: the given one, or the next one. -/
def newId (t : Table) (cells : List (String × SqlValue)) : Except DatabaseFault Int64 :=
  match assigned? cells.reverse "_id" with
  | none | some .null => t.nextId
  | some value => idOfValue value

/-- The cells of a new row: given values, defaults as they are read in the text of the table, or
empty. -/
def newCells (t : Table) (cells : List (String × SqlValue)) : List SqlValue :=
  t.columns.map fun spec =>
    ((assigned? cells spec.name).getD ((spec.default.map SqlValue.asConstant).getD .null)).stored
      spec.type

/-- The table with one more row, and its key. `name` is the name that the table was called by. -/
def insert (t : Table) (name : String) (cells : List (String × SqlValue)) :
    Except DatabaseFault (Table × Int64) :=
  match cells.find? fun (column, _) => ¬ t.hasColumn column with
  | some (column, _) => .error (.noColumnInTable name column)
  | none => do
    let id ← t.newId cells
    let row : Row := ⟨id, t.newCells cells⟩
    t.checkNotNull row
    t.checkUnique t.rows row
    .ok (⟨t.name, t.columns, insertRow row t.rows, max t.sequence id⟩, id)

def assign (t : Table) (cells : List (String × SqlValue)) (row : Row) :
    Except DatabaseFault Row := do
  let id ← match assigned? cells.reverse "_id" with
    | none => .ok row.id
    | some value => idOfValue value
  .ok ⟨id, (t.columns.zip row.cells).map fun (spec, cell) =>
    match assigned? cells.reverse spec.name with
    | some value => value.stored spec.type
    | none => cell⟩

def updateRow (cells : List (String × SqlValue)) (t : Table) (row : Row) :
    Except DatabaseFault Table := do
  let changed ← t.assign cells row
  let others := t.rows.filter (·.id ≠ row.id)
  t.checkNotNull changed
  t.checkUnique others changed
  .ok { t with rows := insertRow changed others }

/-- The table with the given cells set in the rows that meet a condition, one after another, and the
number of those rows. -/
def update (t : Table) (cells : List (String × SqlValue)) (condition : Option Clause) :
    Except DatabaseFault (Table × Nat) :=
  match cells.find? fun (name, _) => ¬ t.hasColumn name with
  | some (name, _) => .error (.noSuchColumn name)
  | none => do
    let rows := t.matching condition
    let changed ← rows.foldlM (updateRow cells) t
    .ok (changed, rows.length)

def delete (t : Table) (condition : Option Clause) : Table × Nat :=
  ({ t with rows := t.rows.filter (¬ Clause.selects condition t ·) }, (t.matching condition).length)

end Table

end RecordStore
