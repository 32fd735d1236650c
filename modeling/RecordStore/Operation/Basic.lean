import RecordStore.Operation.Action
import RecordStore.Query.Compile
import RecordStore.Model.Registry

/-!
# Operations on records

Each operation is planned before it runs: the plan checks its arguments against the models and holds
the action to run, so that a fault in the arguments is found without a database. A plan also says
whether the operation reads or writes.
-/

namespace RecordStore

inductive Operation
  | get (model : String) (id : Int64)
  | find (model field : String) (value : Json)
  | list (model : String) (listing : Listing)
  | create (model : String) (record : Record)
  | update (model : String) (id : Int64) (changes : Record)
  /-- Updates the record that has the members of `lookup`, or creates it. -/
  | upsert (model : String) (lookup defaults : Record)
  | delete (model : String) (id : Int64)
  | createAll (model : String) (records : List Record)
  | updateAll (model : String) (filter : Json) (changes : Record)
  | deleteAll (model : String) (filter : Json)
  | count (model : String) (filter : Option Json)
  | exists (model : String) (filter : Option Json)

inductive Answer
  | record (r : Record)
  | records (rs : List Record)
  | upserted (r : Record) (created : Bool)
  | done
  | count (n : Nat)
  | truth (b : Bool)

inductive Access
  | read
  | write
deriving DecidableEq

/-- A checked operation. -/
structure Plan where
  access : Access
  action : Action Answer

namespace Model

def fetch (m : Model) (activity : Activity) (s : Select) : Action (List Record) := do
  let rows ← Action.read activity (·.select s)
  pure (rows.map m.decode)

/-- Reads the record with a given key, through a selection that is built only then. -/
def fetchById (m : Model) (activity : Activity) (id : Int64) : Action Record := do
  let s ← MonadExcept.ofExcept ((m.select (some (.byId id)) [] none).mapError .query)
  match ← m.fetch activity s with
  | record :: _ => pure record
  | [] => throw .recordNotFound

/-- The window of a search for one record: a second match is enough to know that there are
several. -/
def searchWindow : Window := ⟨0, 2⟩

def single : List Record → Except StoreError Record
  | [] => .error .recordNotFound
  | [record] => .ok record
  | _ => .error .multipleRecordsFound

/-- The error of a refused creation. Violated constraints are not told apart. -/
def creationError (cause : DatabaseFault) : StoreError :=
  if cause.isConstraint then .operation .integrity else Action.refusal .creatingRecord cause

/-- Creates a record and reads it back. -/
def createAction (m : Model) (s : Insert) : Action Record := do
  let id ← Action.change creationError (·.insert s)
  m.fetchById .creatingRecord id

/-- Changes the record with a given key, if there is anything to change, and reads it back. -/
def updateAction (m : Model) (s : Option Update) (id : Int64) : Action Record :=
  Action.transaction do
    match s with
    | none => pure ()
    | some s =>
      let changed ← Action.change (Action.refusal .updatingRecord) (·.update s)
      if changed = 0 then throw .recordNotFound
    m.fetchById .updatingRecord id

def keyOf (record : Record) : Except StoreError Int64 :=
  match (Json.member? record primaryKey).bind Json.toInt64? with
  | some id => .ok id
  | none => .error .recordNotFound

/-- Changes the record that a search finds, or creates it where it finds none. -/
def upsertAction (m : Model) (search : Select) (s : Insert) (changes : List (String × SqlValue)) :
    Action (Record × Bool) :=
  Action.transaction do
    let refused := Action.refusal .updatingRecord
    match ← m.fetch .updatingRecord search with
    | [] =>
      let id ← Action.change refused (·.insert s)
      pure (← m.fetchById .updatingRecord id, true)
    | [record] =>
      let id ← MonadExcept.ofExcept (keyOf record)
      if changes ≠ [] then
        let s ← MonadExcept.ofExcept (m.update changes (some (.byId id)))
        let _ ← Action.change refused (·.update s)
      pure (← m.fetchById .updatingRecord id, false)
    | _ => throw .multipleRecordsFound

def deleteAction (s : Delete) : Action Unit := do
  let removed ← Action.change (Action.refusal .deletingRecord) (·.delete s)
  if removed = 0 then throw .recordNotFound

/-- Creates several records, all or none. -/
def createAllAction (statements : List Insert) : Action Nat :=
  Action.transaction do
    statements.forM fun s => do
      let _ ← Action.change (Action.refusal .creatingRecords) (·.insert s)
    pure statements.length

end Model

namespace Operation

def model : Operation → String
  | .get model _ | .find model _ _ | .list model _ | .create model _ | .update model _ _
  | .upsert model _ _ | .delete model _ | .createAll model _ | .updateAll model _ _
  | .deleteAll model _ | .count model _ | .exists model _ => model

def filterOf (filter : Option Json) : Except QueryError (Option Filter) :=
  match filter with
  | none => .ok none
  | some value => (Filter.ofJson value).map some

def cellsOf (m : Model) (allowId : Bool) (record : Record) :
    Except StoreError (List (String × SqlValue)) :=
  (m.encode allowId record).mapError .validation

/-- The plan of an operation on a given model. -/
def planOn (m : Model) : Operation → Except StoreError Plan
  | .get _ id => .ok ⟨.read, .record <$> m.fetchById .fetchingRecord id⟩
  | .find _ field value => do
    let filter := Filter.condition ⟨field, .equal, value⟩
    let s ← (m.select (some filter) [] (some Model.searchWindow)).mapError .query
    .ok ⟨.read, do
      let records ← m.fetch .fetchingRecord s
      .record <$> MonadExcept.ofExcept (Model.single records)⟩
  | .list _ listing => do
    let filter ← listing.filterTree.mapError .query
    let keys ← listing.sortKeys.mapError .query
    let window ← listing.window.mapError .query
    let s ← (m.select filter keys window).mapError .query
    .ok ⟨.read, .records <$> m.fetch .fetchingRecords s⟩
  | .create _ record => do
    let cells ← cellsOf m true record
    .ok ⟨.write, .record <$> m.createAction (m.insert cells)⟩
  | .update _ id changes => do
    let cells ← cellsOf m false changes
    let s ← if cells = [] then pure none else some <$> m.update cells (some (.byId id))
    .ok ⟨.write, .record <$> m.updateAction s id⟩
  | .upsert _ lookup defaults => do
    let _ ← cellsOf m true lookup
    let changes ← cellsOf m false defaults
    let search ← (m.select (some (.matching lookup)) [] (some Model.searchWindow)).mapError .query
    let cells ← cellsOf m true (Json.setMembers defaults lookup)
    .ok ⟨.write, do
      let (record, created) ← m.upsertAction search (m.insert cells) changes
      pure (.upserted record created)⟩
  | .delete _ id => do
    let s ← (m.delete (some (.byId id))).mapError .query
    .ok ⟨.write, (fun _ => .done) <$> Model.deleteAction s⟩
  | .createAll _ records => do
    let statements ← records.mapM fun record => do
      pure (m.insert (← cellsOf m true record))
    .ok ⟨.write, .count <$> Model.createAllAction statements⟩
  | .updateAll _ filter changes => do
    let filter ← (Filter.ofJson filter).mapError .query
    let cells ← cellsOf m false changes
    let s ← m.update cells (some filter)
    .ok ⟨.write, .count <$> Action.change (Action.refusal .updatingRecords) (·.update s)⟩
  | .deleteAll _ filter => do
    let filter ← (Filter.ofJson filter).mapError .query
    let s ← (m.delete (some filter)).mapError .query
    .ok ⟨.write, .count <$> Action.change (Action.refusal .deletingRecords) (·.delete s)⟩
  | .count _ filter => do
    let filter ← (filterOf filter).mapError .query
    let s ← (m.count filter).mapError .query
    .ok ⟨.read, .count <$> Action.read .countingRecords (·.count s)⟩
  | .exists _ filter => do
    let filter ← (filterOf filter).mapError .query
    let s ← (m.exists? filter).mapError .query
    .ok ⟨.read, .truth <$> Action.read .checkingRecord (·.exists? s)⟩

def plan (registry : Registry) (operation : Operation) : Except StoreError (Model × Plan) := do
  let m ← (registry.get operation.model).mapError .query
  .ok (m, ← operation.planOn m)

end Operation

end RecordStore
