import RecordStore.Error
import RecordStore.Text.Identifier
import RecordStore.Text.Lowercase

/-!
# Models

A model is a named table with typed fields and an implicit integer primary key `_id`. `Model.encode`
turns a record into the cells it is stored in and `Model.decode` turns a row back into a record.
-/

namespace RecordStore

def primaryKey : String := "_id"

structure Field where
  name : String
  kind : FieldKind
  nullable : Bool
  unique : Bool
  /-- The value of the field where a record omits it. -/
  default : Option Json
deriving DecidableEq

/-- A named table with typed fields. -/
structure Model where
  name : String
  /-- The name of the table, where it is not the lower-case name of the model. -/
  table : Option String
  fields : List Field
deriving DecidableEq

inductive Column
  | id
  | field (f : Field)
deriving DecidableEq

namespace Column

def name : Column → String
  | .id => primaryKey
  | .field f => f.name

def kind : Column → FieldKind
  | .id => .int
  | .field f => f.kind

end Column

namespace Field

/-- A field that takes no `null`, repeats values and has no default. -/
def plain (name : String) (kind : FieldKind) : Field := ⟨name, kind, false, false, none⟩

def encode (f : Field) (value : Json) : Except ValidationError SqlValue :=
  if value.isNull then
    if f.nullable then .ok .null else .error (.nullNotAccepted f.name)
  else match f.kind.encode? value with
    | some cell => .ok cell
    | none => .error (.kindMismatch f.name f.kind value)

/-- The cell of the default of the field, if it has one. -/
def encodeDefault (f : Field) : Except ValidationError (Option SqlValue) :=
  match f.default with
  | none => .ok none
  | some value => (f.encode value).map some

end Field

namespace Model

def tableName (m : Model) : String := m.table.getD (lowercase m.name)

/-- The columns of a model, the primary key first. -/
def columns (m : Model) : List Column := .id :: m.fields.map .field

def column? (m : Model) (name : String) : Option Column := m.columns.find? (·.name = name)

/-- Checks the fields after those with the names `earlier`. -/
def validateFields (m : Model) (earlier : List String) : List Field → Except ValidationError Unit
  | [] => .ok ()
  | f :: rest => do
    if ¬ isIdentifier f.name then .error (.invalidFieldName f.name m.name)
    else if f.name = primaryKey then .error (.reservedField m.name)
    else if f.name ∈ earlier then .error (.duplicateField f.name m.name)
    else
      let _ ← f.encodeDefault
      m.validateFields (f.name :: earlier) rest

def validate (m : Model) : Except ValidationError Unit :=
  if ¬ isIdentifier m.name then .error (.invalidModelName m.name)
  else if ¬ isIdentifier m.tableName then .error (.invalidTableName m.tableName)
  else m.validateFields [] m.fields

/-- The cell of one member of a record. The primary key is accepted only where `allowId` says
so. -/
def encodeMember (m : Model) (allowId : Bool) (name : String) (value : Json) :
    Except ValidationError (String × SqlValue) :=
  match m.column? name with
  | some .id =>
    if allowId then
      match value.toInt64? with
      | some id => .ok (primaryKey, .integer id)
      | none => .error (.idNotInteger value)
    else .error .idNotUpdatable
  | some (.field f) => (f.encode value).map (f.name, ·)
  | none => .error (.unknownField name m.name)

/-- The cells of a record, in the order of its members. -/
def encode (m : Model) (allowId : Bool) (record : Record) :
    Except ValidationError (List (String × SqlValue)) :=
  record.mapM fun (name, value) => m.encodeMember allowId name value

/-- The record of a row that is read in the order of the columns. -/
def decode (m : Model) (row : List SqlValue) : Record :=
  Json.setMembers [] ((m.columns.zip row).map fun (c, cell) => (c.name, c.kind.decode cell))

end Model

end RecordStore
