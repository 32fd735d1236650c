import RecordStore.Proofs.Query.Meaning
import RecordStore.Proofs.Model.Records
import RecordStore.Operation.Basic
import Mathlib.Logic.Relation

/-!
# What actions do

An action that succeeds takes the database through statements of its model, one after another. An
action that fails leaves the database as it was if it fails before its first statement, or the
refused statement is its only one, or it is a transaction. The one action that reads after a statement
of its own outside of a transaction is the creation of a record. The record that it reads is there,
but a row of too many columns is not read.
-/

namespace RecordStore

namespace Model

variable {m : Model}

/-! ## Statements by a key

The statements that select a row by its key or give cells to it are built without a fault: the key
is a column of every model and is not `null`. -/

/-- Selects the row with a given key. -/
def selectById (m : Model) (id : Int64) : Select :=
  ⟨m.tableName, m.columns.map Column.name,
    some (.compare primaryKey .equal (.integer id)), [], none⟩

/-- The filter for a key is the condition on the key. -/
theorem restriction_byId (m : Model) (id : Int64) :
    m.restriction (some (.byId id)) = .ok (m.selectById id).condition := by
  have hcolumn : m.resolve primaryKey = .ok .id := resolve_eq_ok.mpr (List.find?_cons_of_pos rfl)
  have hoperand : Column.id.operand (.ofInt64 id) = .integer id := by
    show SqlValue.ofNumber (.ofInt64 id) = .integer id
    rw [SqlValue.ofNumber, show (Number.ofInt64 id).toInt64? = _ from Json.toInt64?_ofInt64 id]
  have hclause : (⟨primaryKey, .equal, .ofInt64 id⟩ : Condition).clauseOn .id =
      .ok (.compare primaryKey .equal (.integer id)) := by
    rw [← hoperand]
    rfl
  show m.compile (.condition _) = _
  rw [compile, hcolumn, ok_bind, hclause]
  rfl

/-- The statement that changes the row with a given key. -/
theorem update_byId {changes : List (String × SqlValue)} (hne : changes ≠ []) (id : Int64) :
    m.update changes (some (.byId id)) =
      .ok ⟨m.tableName, changes, (m.selectById id).condition⟩ := by
  rw [update, if_neg hne, restriction_byId, mapError_ok, ok_bind]

/-- The statement that reads the row with a given key. -/
theorem select_byId (m : Model) (id : Int64) :
    m.select (some (.byId id)) [] none = .ok (m.selectById id) := by
  rw [select, restriction_byId, ok_bind]
  rfl

/-- A record is read by its key through the selection of the row with that key. -/
theorem fetchById_eq (activity : Activity) (id : Int64) : m.fetchById activity id = (do
    match ← m.fetch activity (m.selectById id) with
    | record :: _ => pure record
    | [] => throw .recordNotFound : Action Record) := by
  rw [fetchById, select_byId]
  rfl

end Model

namespace Action

variable {α β : Type} {R : Database → Database → Prop}

/-- Whatever an action that succeeds does to a database, it is in this relation. -/
def Commits (R : Database → Database → Prop) (action : Action α) : Prop :=
  ∀ ⦃db v db'⦄, action db = .ok v db' → R db db'

/-- An action that fails leaves the database as it was. -/
def Atomic (action : Action α) : Prop :=
  ∀ ⦃db e db'⦄, db.DistinctNames → action db = .error e db' → db' = db

/-- Whatever an action that fails does to a database before, it is in this relation. -/
def Leaves (R : Database → Database → Prop) (action : Action α) : Prop :=
  ∀ ⦃db e db'⦄, db.DistinctNames → action db = .error e db' → R db db'

/-- Whatever an action fails with is among these errors. -/
def FailsWith (P : StoreError → Prop) (action : Action α) : Prop :=
  ∀ ⦃db e db'⦄, action db = .error e db' → P e

theorem Commits.map {action : Action α} (h : action.Commits R) (f : α → β) :
    (f <$> action).Commits R := by
  intro db b db' hrun
  obtain ⟨a, ha, _⟩ := runMap_eq_ok.mp hrun
  exact h ha

theorem Commits.bind (ht : ∀ a b c, R a b → R b c → R a c) {x : Action α} {f : α → Action β}
    (hx : x.Commits R) (hf : ∀ a, (f a).Commits R) : (x >>= f).Commits R := by
  intro db b db' hrun
  obtain ⟨a, db₁, hrun, hrest⟩ := runBind_eq_ok.mp hrun
  exact ht _ _ _ (hx hrun) (hf a hrest)

theorem commits_pure (hr : ∀ db, R db db) (v : α) : (pure v : Action α).Commits R := by
  rintro db _ _ ⟨⟩
  exact hr db

theorem commits_throw (e : StoreError) : (throw e : Action α).Commits R := nofun

theorem commits_ofExcept (hr : ∀ db, R db db) (x : Except StoreError α) :
    (MonadExcept.ofExcept x : Action α).Commits R := by
  intro db v db' hrun
  obtain ⟨_, rfl⟩ := runOfExcept_eq_ok.mp hrun
  exact hr _

theorem Atomic.map {action : Action α} (h : action.Atomic) (f : α → β) : (f <$> action).Atomic :=
  fun _ _ _ hd hrun => h hd (runMap_eq_error.mp hrun)

/-- An action that leaves the database as it was keeps every relation to itself. -/
theorem Atomic.leaves {action : Action α} (h : action.Atomic) (hr : ∀ db, R db db) :
    action.Leaves R := fun db _ _ hd hrun => h hd hrun ▸ hr db

theorem Leaves.map {action : Action α} (h : action.Leaves R) (f : α → β) :
    (f <$> action).Leaves R := fun _ _ _ hd hrun => h hd (runMap_eq_error.mp hrun)

theorem atomic_pure (v : α) : (pure v : Action α).Atomic := nofun

theorem atomic_throw (e : StoreError) : (throw e : Action α).Atomic := by
  rintro db _ _ _ ⟨⟩
  rfl

theorem atomic_ofExcept (x : Except StoreError α) :
    (MonadExcept.ofExcept x : Action α).Atomic := by
  intro db e db' _ hrun
  obtain ⟨_, rfl⟩ := runOfExcept_eq_error.mp hrun
  rfl

/-- What follows an action that changes nothing may fail as well. -/
theorem Atomic.bind {x : Action α} {f : α → Action β} (hx : x.Atomic) (hr : x.Commits (·= ·))
    (hf : ∀ a, (f a).Atomic) : (x >>= f).Atomic := by
  intro db e db' hd hrun
  rcases runBind_eq_error.mp hrun with hrun | ⟨a, db₁, hrun, hrest⟩
  · exact hx hd hrun
  · obtain rfl := hr hrun
    exact hf a hd hrest

theorem read_eq_ok {activity : Activity} {statement : Database → Except DatabaseFault α}
    {db db' : Database} {v : α} :
    read activity statement db = .ok v db' ↔ statement db = .ok v ∧ db' = db := by
  unfold read
  cases statement db with
  | ok value => simp [eq_comm]
  | error cause => simp

theorem read_eq_error {activity : Activity} {statement : Database → Except DatabaseFault α}
    {db db' : Database} {e : StoreError} : read activity statement db = .error e db' ↔
      ∃ cause, statement db = .error cause ∧ e = refusal activity cause ∧ db' = db := by
  unfold read
  cases statement db with
  | ok value => simp
  | error cause => simp [eq_comm]

theorem commits_read (hr : ∀ db, R db db) (activity : Activity)
    (statement : Database → Except DatabaseFault α) : (read activity statement).Commits R := by
  intro db v db' hrun
  obtain ⟨_, rfl⟩ := read_eq_ok.mp hrun
  exact hr _

theorem atomic_read (activity : Activity) (statement : Database → Except DatabaseFault α) :
    (read activity statement).Atomic := by
  intro db e db' _ hrun
  obtain ⟨_, _, _, rfl⟩ := read_eq_error.mp hrun
  rfl

theorem change_eq_ok {onFault : DatabaseFault → StoreError}
    {statement : Database → Except DatabaseFault (Database × α)} {db db' : Database} {v : α} :
    change onFault statement db = .ok v db' ↔ statement db = .ok (db', v) := by
  unfold change
  cases statement db with
  | ok result => simp [Prod.ext_iff, and_comm]
  | error cause => simp

theorem change_eq_error {onFault : DatabaseFault → StoreError}
    {statement : Database → Except DatabaseFault (Database × α)} {db db' : Database} {e : StoreError} :
    change onFault statement db = .error e db' ↔
      ∃ cause, statement db = .error cause ∧ e = onFault cause ∧ db' = db := by
  unfold change
  cases statement db with
  | ok result => simp
  | error cause => simp [eq_comm]

theorem commits_change {onFault : DatabaseFault → StoreError}
    {statement : Database → Except DatabaseFault (Database × α)}
    (h : ∀ db db' v, statement db = .ok (db', v) → R db db') :
    (change onFault statement).Commits R := fun _ _ _ hrun => h _ _ _ (change_eq_ok.mp hrun)

theorem atomic_change (onFault : DatabaseFault → StoreError)
    (statement : Database → Except DatabaseFault (Database × α)) :
    (change onFault statement).Atomic := by
  intro db e db' _ hrun
  obtain ⟨_, _, _, rfl⟩ := change_eq_error.mp hrun
  rfl

/-- A transaction succeeds as what it consists of does. -/
theorem transaction_eq_ok {action : Action α} {db db' : Database} {v : α} :
    transaction action db = .ok v db' ↔ action db = .ok v db' := by
  unfold transaction
  cases action db <;> simp

theorem Commits.transaction {action : Action α} (h : action.Commits R) :
    (transaction action).Commits R := fun _ _ _ hrun => h (transaction_eq_ok.mp hrun)

/-- A transaction is atomic, whatever it consists of. -/
theorem atomic_transaction (action : Action α) : (transaction action).Atomic := by
  intro db e db' _ hrun
  unfold Action.transaction at hrun
  split at hrun
  · cases hrun
  · cases hrun
    rfl

section
variable {P : StoreError → Prop}

theorem FailsWith.map {action : Action α} (h : action.FailsWith P) (f : α → β) :
    (f <$> action).FailsWith P := fun _ _ _ hrun => h (runMap_eq_error.mp hrun)

theorem FailsWith.bind {x : Action α} {f : α → Action β} (hx : x.FailsWith P)
    (hf : ∀ a, (f a).FailsWith P) : (x >>= f).FailsWith P := by
  intro db e db' hrun
  rcases runBind_eq_error.mp hrun with hrun | ⟨a, db₁, _, hrest⟩
  · exact hx hrun
  · exact hf a hrest

theorem failsWith_pure (v : α) : (pure v : Action α).FailsWith P := nofun

theorem failsWith_throw {e : StoreError} (h : P e) : (throw e : Action α).FailsWith P := by
  rintro db _ _ ⟨⟩
  exact h

theorem failsWith_ofExcept {x : Except StoreError α} (h : ∀ e, x = .error e → P e) :
    (MonadExcept.ofExcept x : Action α).FailsWith P := by
  intro db e db' hrun
  exact h e (runOfExcept_eq_error.mp hrun).1

theorem failsWith_read {activity : Activity} (h : ∀ cause, P (refusal activity cause))
    (statement : Database → Except DatabaseFault α) : (read activity statement).FailsWith P := by
  intro db e db' hrun
  obtain ⟨cause, _, rfl, _⟩ := read_eq_error.mp hrun
  exact h cause

theorem failsWith_change {onFault : DatabaseFault → StoreError} (h : ∀ cause, P (onFault cause))
    (statement : Database → Except DatabaseFault (Database × α)) :
    (change onFault statement).FailsWith P := by
  intro db e db' hrun
  obtain ⟨cause, _, rfl, _⟩ := change_eq_error.mp hrun
  exact h cause

/-- A transaction fails as what it consists of does. -/
theorem FailsWith.transaction {action : Action α} (h : action.FailsWith P) :
    (transaction action).FailsWith P := by
  intro db e db' hrun
  unfold Action.transaction at hrun
  split at hrun
  · cases hrun
  next hfailed =>
    cases hrun
    exact h hfailed

end

end Action

end RecordStore
