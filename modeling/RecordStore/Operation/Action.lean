import RecordStore.Database.Basic

/-!
# Actions on a database

An action reads and changes a database. Where it fails, the changes that it made before stay, unless
it runs as a transaction: a transaction that fails leaves the database as it was.
-/

namespace RecordStore

abbrev Action := EStateM StoreError Database

namespace Action

def refusal (activity : Activity) (cause : DatabaseFault) : StoreError :=
  .operation (.failed activity cause)

def read {α : Type} (activity : Activity) (statement : Database → Except DatabaseFault α) :
    Action α := fun db =>
  match statement db with
  | .ok value => .ok value db
  | .error cause => .error (refusal activity cause) db

def change {α : Type} (onFault : DatabaseFault → StoreError)
    (statement : Database → Except DatabaseFault (Database × α)) : Action α := fun db =>
  match statement db with
  | .ok (db', value) => .ok value db'
  | .error cause => .error (onFault cause) db

/-- Runs an action so that it changes nothing where it fails. -/
def transaction {α : Type} (action : Action α) : Action α := fun db =>
  match action db with
  | .ok value db' => .ok value db'
  | .error e _ => .error e db

end Action

end RecordStore
