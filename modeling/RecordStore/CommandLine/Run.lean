import RecordStore.CommandLine.Command
import RecordStore.Session.Basic

/-!
# Running commands

Each command reads its JSON arguments, carries out one operation in a session, and gives the result
as a JSON value.
-/

namespace RecordStore.Command

def readFilter (text : String) : Except StoreError Json :=
  (Json.read text).mapError fun cause => .query (.filterText cause)

def readOptionalFilter (text : Option String) : Except StoreError (Option Json) :=
  match text with
  | none => .ok none
  | some text => (readFilter text).map some

def readOptionalSort (text : Option String) : Except StoreError (Option Json) :=
  match text with
  | none => .ok none
  | some text => ((readSort text).mapError .query).map some

def recordOf : Json → Except StoreError Record
  | .object members => .ok members
  | value => .error (.validation (.notAnObject value))

def readRecord (text : String) : Except StoreError Record := do
  let value ← (Json.read text).mapError fun cause => .validation (.recordText cause)
  recordOf value

def readRecords (text : String) : Except StoreError (List Record) := do
  let values ← (Json.readArray text).mapError fun cause => .validation (.recordsText cause)
  values.mapM recordOf

/-- The operation of a command other than `migrate`, and how its answer is shown. -/
def operation? (files : FileTree) : Command → Except StoreError (Option Operation)
  | .migrate => .ok none
  | .get model id => .ok (some (.get model id))
  | .find model field value =>
    .ok (some (.find model field ((Json.read value).toOption.getD (.string value))))
  | .list model filter sort page pageSize => do
    let filter ← readOptionalFilter filter
    let sort ← readOptionalSort sort
    .ok (some (.list model ⟨filter, sort, page, pageSize⟩))
  | .create model record => do .ok (some (.create model (← readRecord record)))
  | .update model id changes => do .ok (some (.update model id (← readRecord changes)))
  | .upsert model lookup defaults => do
    .ok (some (.upsert model (← readRecord lookup) (← readRecord defaults)))
  | .delete model id => .ok (some (.delete model id))
  | .importFile model file => do
    let text ← (files.readText file).mapError fun lack =>
      .validation (.unreadableFile file lack.message)
    .ok (some (.createAll model (← readRecords text)))
  | .updateMany model filter changes => do
    .ok (some (.updateAll model (← readFilter filter) (← readRecord changes)))
  | .deleteMany model filter => do .ok (some (.deleteAll model (← readFilter filter)))
  | .count model filter => do .ok (some (.count model (← readOptionalFilter filter)))
  | .exists model filter => do .ok (some (.exists model (← readOptionalFilter filter)))

def natJson (n : Nat) : Json := ((Number.ofNat? n).map Json.number).getD .null

/-- The value that shows the answer to a command. -/
def shown (command : Command) (answer : Answer) : Json :=
  match answer, command with
  | .record r, _ => .object r
  | .records rs, _ => .array (rs.map .object)
  | .upserted r created, _ => .object [("record", .object r), ("created", .bool created)]
  | .done, .delete _ id => .object [("deleted", .ofInt64 id)]
  | .done, _ => .null
  | .count n, .importFile .. => .object [("created", natJson n)]
  | .count n, .updateMany .. => .object [("updated", natJson n)]
  | .count n, .deleteMany .. => .object [("deleted", natJson n)]
  | .count n, _ => natJson n
  | .truth b, _ => .bool b

def run (command : Command) : Session.Step Json := do
  let s ← getThe Session
  match ← MonadExcept.ofExcept (command.operation? s.files) with
  | none =>
    pure (.object [("app", .string s.registry.app),
      ("models", .array (s.registry.models.map fun m => .string m.name))])
  | some operation =>
    let answer ← Session.perform operation
    pure (command.shown answer)

end RecordStore.Command
