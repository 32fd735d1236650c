import RecordStore.Query.Listing
import RecordStore.Sql.Statement
import RecordStore.Model.Basic

/-!
# From queries to statements

The statements that carry out an operation on a model. Names come from the model and values become
parameters. A filter becomes a condition by way of its tree: parts that restrict nothing vanish, and
a disjunction with such a part vanishes as a whole, parameters included. Every column of a filter is
checked, also in the parts that vanish.
-/

namespace RecordStore

/-- The parameter that stands for a value compared with a column. Columns of kind `json` are
compared with the text of the value. -/
def Column.operand (c : Column) (value : Json) : SqlValue :=
  match c.kind, value with
  | _, .null => .null
  | .json, value => .text value.text
  | _, value => .ofJson value

namespace Condition

/-- The condition that the column has one of the items, or that it has none of them. A `null` among
the items stands for an empty cell. -/
def membership (column : Column) (negated : Bool) (items : List Json) : Clause :=
  let name := column.name
  let operands := (items.filter (¬ ·.isNull)).map column.operand
  if items = [] then .constant negated
  else if operands = [] then if negated then .isNotNull name else .isNull name
  else match negated, items.any Json.isNull with
    | true, true => .all [.noneOf name operands, .isNotNull name]
    | true, false => .any [.noneOf name operands, .isNull name]
    | false, true => .any [.oneOf name operands, .isNull name]
    | false, false => .oneOf name operands

/-- The comparison of a column with a value other than `null`. -/
def relate (c : Condition) (column : Column) (relation : Relation) : Except QueryError Clause :=
  if c.value.isNull then .error (.comparedWithNull c.column)
  else .ok (.compare column.name relation (column.operand c.value))

def clauseOn (c : Condition) (column : Column) : Except QueryError Clause :=
  match c.comparison with
  | .equal =>
    .ok (if c.value.isNull then .isNull column.name
      else .compare column.name .equal (column.operand c.value))
  | .notEqual =>
    .ok (if c.value.isNull then .isNotNull column.name
      else .any [.compare column.name .notEqual (column.operand c.value), .isNull column.name])
  | .greater => c.relate column .greater
  | .atLeast => c.relate column .atLeast
  | .less => c.relate column .less
  | .atMost => c.relate column .atMost
  | .oneOf =>
    match c.value with
    | .array items => .ok (membership column false items)
    | _ => .error (.listExpected "$in")
  | .noneOf =>
    match c.value with
    | .array items => .ok (membership column true items)
    | _ => .error (.listExpected "$nin")

end Condition

namespace Model

def resolve (m : Model) (name : String) : Except QueryError Column :=
  match m.column? name with
  | some column => .ok column
  | none => .error (.unknownField name m.name)

mutual

/-- The clause of a filter, or none if the filter restricts nothing. -/
def compile (m : Model) : Filter → Except QueryError (Option Clause)
  | .all parts => do
    let clauses ← compileParts m parts
    .ok (Clause.joined .all (clauses.filterMap id))
  | .any parts => do
    let clauses ← compileParts m parts
    .ok (if clauses.any Option.isNone then none else Clause.joined .any (clauses.filterMap id))
  | .condition c => do
    let column ← m.resolve c.column
    (c.clauseOn column).map some

def compileParts (m : Model) : List Filter → Except QueryError (List (Option Clause))
  | [] => .ok []
  | part :: rest => do
    let clause ← compile m part
    let clauses ← compileParts m rest
    .ok (clause :: clauses)

end

def restriction (m : Model) : Option Filter → Except QueryError (Option Clause)
  | none => .ok none
  | some filter => if filter.isUnrestricted then .ok none else m.compile filter

def orderTerm (m : Model) (key : SortKey) : Except QueryError OrderTerm := do
  let column ← m.resolve key.column
  if key.subkeys ≠ [] ∧ column.kind ≠ .json then .error (.noSubkeys column.name m.name)
  else .ok ⟨column.name, key.subkeys, key.descending⟩

end Model

/-- A count as a signed word; larger ones become the largest. -/
def clampCount (n : Nat) : Int64 := Int64.ofNat (min n maxInt64)

def Window.toRows (w : Window) : RowWindow := ⟨clampCount w.limit, clampCount w.offset⟩

def Filter.byId (id : Int64) : Filter := .condition ⟨primaryKey, .equal, .ofInt64 id⟩

namespace Model

/-- Reads the records that match a filter, in order, as far as the window shows them. -/
def select (m : Model) (filter : Option Filter) (keys : List SortKey) (window : Option Window) :
    Except QueryError Select := do
  let condition ← m.restriction filter
  let order ← keys.mapM m.orderTerm
  .ok ⟨m.tableName, m.columns.map Column.name, condition, order, window.map Window.toRows⟩

def count (m : Model) (filter : Option Filter) : Except QueryError Count := do
  .ok ⟨m.tableName, ← m.restriction filter⟩

def exists? (m : Model) (filter : Option Filter) : Except QueryError Exists := do
  .ok ⟨m.tableName, ← m.restriction filter⟩

def insert (m : Model) (cells : List (String × SqlValue)) : Insert := ⟨m.tableName, cells⟩

def update (m : Model) (cells : List (String × SqlValue)) (filter : Option Filter) :
    Except StoreError Update :=
  if cells = [] then .error (.validation .noChanges)
  else do
    let condition ← (m.restriction filter).mapError .query
    .ok ⟨m.tableName, cells, condition⟩

def delete (m : Model) (filter : Option Filter) : Except QueryError Delete := do
  .ok ⟨m.tableName, ← m.restriction filter⟩

/-- The columns of the table of a model besides its primary key. -/
def columnSpec (f : Field) : Except ValidationError ColumnSpec := do
  let default ← f.encodeDefault
  .ok ⟨f.name, f.kind.columnType, !f.nullable, f.unique, default⟩

def createTable (m : Model) : Except ValidationError CreateTable := do
  .ok ⟨m.tableName, ← m.fields.mapM columnSpec⟩

end Model

end RecordStore
