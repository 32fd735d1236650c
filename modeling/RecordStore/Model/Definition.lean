import RecordStore.Model.Basic

/-!
# Definitions as JSON

Fields, models and database configurations as JSON values. A definition is written as an object with
all members; it is read from an object, whose unknown members are passed over, or from the array of
its members in order. Members that have a default may be missing.
-/

namespace RecordStore

/-- Names a database: where it is kept, the name of the application, and its models. -/
structure DatabaseConfig where
  uri : String
  database : String
  models : List Model
deriving DecidableEq

namespace Json

def ofOption : Option Json → Json
  | none => .null
  | some value => value

/-- The members of a definition whose members have the given names, from an object or an array. -/
def definitionMembers? (names : List String) : Json → Option (List (String × Json))
  | .object members => some members
  | .array items => if items.length ≤ names.length then some (names.zip items) else none
  | _ => none

def toString? : Json → Option String
  | .string s => some s
  | _ => none

def requiredString? (members : List (String × Json)) (key : String) : Option String := do
  toString? (← member? members key)

/-- A truth value that is false unless it is there. -/
def flag? (members : List (String × Json)) (key : String) : Option Bool :=
  match member? members key with
  | none => some false
  | some (.bool b) => some b
  | some _ => none

end Json

namespace FieldKind

/-- The kind that a value names: a word, or an object with that word as its only key. -/
def ofJson? : Json → Option FieldKind
  | .string word => ofWord? word
  | .object [(word, .null)] => ofWord? word
  | _ => none

end FieldKind

namespace Field

def toJson (f : Field) : Json :=
  .object [("name", .string f.name), ("kind", .string f.kind.word), ("nullable", .bool f.nullable),
    ("unique", .bool f.unique), ("default", .ofOption f.default)]

/-- The field that a value defines. A `null` default is none. -/
def ofJson? (value : Json) : Option Field := do
  let members ← value.definitionMembers? ["name", "kind", "nullable", "unique", "default"]
  let name ← Json.requiredString? members "name"
  let kind ← FieldKind.ofJson? (← Json.member? members "kind")
  let nullable ← Json.flag? members "nullable"
  let unique ← Json.flag? members "unique"
  let default := (Json.member? members "default").filter (¬ ·.isNull)
  some ⟨name, kind, nullable, unique, default⟩

end Field

namespace Model

def toJson (m : Model) : Json :=
  .object [("name", .string m.name), ("table", .ofOption (m.table.map .string)),
    ("fields", .array (m.fields.map Field.toJson))]

def tableOf? (members : List (String × Json)) : Option (Option String) :=
  match Json.member? members "table" with
  | none | some .null => some none
  | some (.string table) => some (some table)
  | some _ => none

def fieldsOf? (members : List (String × Json)) : Option (List Field) :=
  match Json.member? members "fields" with
  | none => some []
  | some (.array items) => items.mapM Field.ofJson?
  | some _ => none

def ofJson? (value : Json) : Option Model := do
  let members ← value.definitionMembers? ["name", "table", "fields"]
  let name ← Json.requiredString? members "name"
  let table ← tableOf? members
  let fields ← fieldsOf? members
  some ⟨name, table, fields⟩

end Model

namespace DatabaseConfig

def toJson (c : DatabaseConfig) : Json :=
  .object [("uri", .string c.uri), ("database", .string c.database),
    ("models", .array (c.models.map Model.toJson))]

def modelsOf? (members : List (String × Json)) : Option (List Model) :=
  match Json.member? members "models" with
  | none => some []
  | some (.array items) => items.mapM Model.ofJson?
  | some _ => none

/-- The name of the database, which goes by either of two keys but not by both. -/
def databaseOf? (members : List (String × Json)) : Option String :=
  match Json.member? members "database", Json.member? members "name" with
  | some value, none | none, some value => value.toString?
  | _, _ => none

def ofJson? (value : Json) : Option DatabaseConfig := do
  let members ← value.definitionMembers? ["uri", "database", "models"]
  let uri ← Json.requiredString? members "uri"
  let database ← databaseOf? members
  let models ← modelsOf? members
  some ⟨uri, database, models⟩

end DatabaseConfig

end RecordStore
