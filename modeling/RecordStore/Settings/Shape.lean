import RecordStore.Settings.Value
import RecordStore.Database.Location

/-!
# The shape of settings

The settings of the program: the database with its models, and the level of the log. They are read
from a table, or from an array of the values in order; unknown members are passed over and missing
ones have defaults, but a member that is there must have the right shape.
-/

namespace RecordStore

structure Settings where
  database : DatabaseConfig
  logLevel : String
deriving DecidableEq

def Settings.default : Settings := ⟨.default, "info"⟩

namespace Setting

def definition? (names : List String) : Setting → Option (List (String × Setting))
  | .table members => some members
  | .array items => some (names.zip items)
  | _ => none

def optional? {α : Type} (members : List (String × Setting)) (key : String) (default : α)
    (read : Setting → Option α) : Option α :=
  match member? members key with
  | none => some default
  | some value => read value

/-- The kind of a field: a word in any case, or a table with that word as its only key. -/
def kind? : Setting → Option FieldKind
  | .text word | .table [(word, _)] => FieldKind.all.find? (·.word = lowercase word)
  | _ => none

def items? : Setting → Option (List Setting)
  | .array items => some items
  | _ => none

def field? (value : Setting) : Option Field := do
  let members ← value.definition? ["name", "kind", "nullable", "unique", "default"]
  let name ← (← member? members "name").toText?
  let kind ← (← member? members "kind").kind?
  let nullable ← optional? members "nullable" false toBool?
  let unique ← optional? members "unique" false toBool?
  let default := match member? members "default" with
    | none | some .nil => none
    | some value => some value.toJson
  some ⟨name, kind, nullable, unique, default⟩

def tableName? : Setting → Option (Option String)
  | .nil => some none
  | value => value.toText?.map some

def model? (value : Setting) : Option Model := do
  let members ← value.definition? ["name", "table", "fields"]
  let name ← (← member? members "name").toText?
  let table ← optional? members "table" none tableName?
  let fields ← optional? members "fields" [] fun value => do (← value.items?).mapM field?
  some ⟨name, table, fields⟩

/-- The name of the database, under either of two keys but not under both. -/
def databaseName? (members : List (String × Setting)) (default : String) : Option String :=
  match member? members "database", member? members "name" with
  | none, none => some default
  | some value, none | none, some value => value.toText?
  | some _, some _ => none

def database? (value : Setting) : Option DatabaseConfig := do
  let members ← value.definition? ["uri", "database", "models"]
  let uri ← optional? members "uri" DatabaseConfig.default.uri toText?
  let name ← databaseName? members DatabaseConfig.default.database
  let models ← optional? members "models" [] fun value => do (← value.items?).mapM model?
  some ⟨uri, name, models⟩

/-- The settings under the key of the program. -/
def program? (value : Setting) : Option Settings := do
  let members ← value.definition? ["database", "log_level"]
  let database ← optional? members "database" DatabaseConfig.default database?
  let logLevel ← optional? members "log_level" Settings.default.logLevel toText?
  some ⟨database, logLevel⟩

def settings? (value : Setting) : Option Settings :=
  optional? value.members "eazyapi" Settings.default program?

end Setting

end RecordStore
