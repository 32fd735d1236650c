import RecordStore.Proofs.Session.Isolation
import RecordStore.Proofs.Session.Serving
import RecordStore.Proofs.Operation.RowChanges

/-!
# What a serving session offers

Each connection of an open session views a table for a model. The session offers the model the table
that was made for it, and in a serving session every model has one of its own. An operation on the
model works on this table: it reads the records of the rows that meet a condition, or it puts another
table of the model in its place. Then the listing of the model shows the new rows, while the listings
of models with other tables stay as they are.
-/

namespace RecordStore

namespace Model

variable {m : Model}

/-- The statement that reads the records that meet a condition in their order, as far as a window
shows them. -/
def selectWhere (m : Model) (condition : Option Clause) (window : Option RowWindow) : Select :=
  ⟨m.tableName, m.columns.map Column.name, condition, [], window⟩

/-! ## Rows that meet a condition -/

theorem fits_selectWhere {condition : Option Clause} {window : Option RowWindow} :
    (m.selectWhere condition window).Fits ↔
      m.Narrow ∧ Fit (whereDemands 5 condition ++ windowDemands window) := by
  have hcolumns : (m.selectWhere condition window).columns.length = m.columns.length :=
    List.length_map _
  constructor
  · intro h
    rw [Narrow, ← hcolumns]
    exact ⟨h.columns, h.text⟩
  · rintro ⟨hm, htext⟩
    exact ⟨htext, hcolumns.symm ▸ hm, Nat.zero_le _⟩

/-- What is read are the records of the rows that meet the condition, whatever table it is. -/
theorem fetch_recordIn {db : Database} {t : Table} (ht : db.table? m.tableName = some t)
    (activity : Activity) {condition : Option Clause} {window : Option RowWindow}
    (hfits : (m.selectWhere condition window).Fits) :
    m.fetch activity (m.selectWhere condition window) db =
      .ok ((RowWindow.show window (db.planner.visit t condition [])).map (m.recordIn t)) db := by
  have hselect : db.select (m.selectWhere condition window) =
      .ok ((RowWindow.show window (db.planner.visit t condition [])).map fun row =>
        m.columns.map fun column => (t.read row column.name).2) := by
    refine Database.select_eq_ok.mpr ⟨hfits, t, db.planner.visit t condition [], ht, rfl, ?_⟩
    simp only [selectWhere, List.map_map]
    rfl
  have hrecords : (RowWindow.show window (db.planner.visit t condition [])).map (m.recordIn t) =
      ((RowWindow.show window (db.planner.visit t condition [])).map fun row =>
        m.columns.map fun column => (t.read row column.name).2).map m.decode := List.map_map.symm
  rw [hrecords]
  exact runBind_eq_ok.mpr ⟨_, db, Action.read_eq_ok.mpr ⟨hselect, rfl⟩, rfl⟩

/-- The change of a row by its key is within the limits, if the record of the changes has different
keys. -/
theorem fits_update_of_encode (hm : m.Narrow) {changes : Record} (hd : Json.DistinctKeys changes)
    {allowId : Bool} {cells : List (String × SqlValue)} (h : m.encode allowId changes = .ok cells)
    (id : Int64) : Update.Fits ⟨m.tableName, cells, (m.selectById id).condition⟩ := by
  have hfew : cells.length ≤ columnLimit := Nat.le_trans (length_of_encode hd h) hm
  have hdemands : whereDemands 9 (m.selectById id).condition = [.symbols 12, .parameter] := rfl
  refine ⟨Fit.append_iff.mpr ⟨?_, granted_values cells, ?_⟩, hfew⟩
  · rw [count_values, hdemands]
    exact Nat.le_trans (Nat.add_le_add_right hfew 1) (by decide)
  · rw [hdemands]
    decide

section
variable {db : Database} {t : Table} (hown : m.OwnTable t) (ht : db.table? m.tableName = some t)
include hown

/-- As rows of a table of the model, rows show the records that they have by themselves. -/
theorem map_recordIn {rows : List Row} (hrows : rows ⊆ t.rows) :
    rows.map (m.recordIn t) = rows.map m.recordOf :=
  List.map_congr_left fun _ hrow => hown.decode_read (hrows hrow)

theorem visit_recordIn (planner : Planner) (condition : Option Clause) :
    (planner.visit t condition []).map (m.recordIn t) =
      (planner.visit t condition []).map m.recordOf :=
  map_recordIn hown fun _ hrow => (planner.mem_visit.mp hrow).1

include ht

theorem fetch_selectWhere (activity : Activity) {condition : Option Clause}
    {window : Option RowWindow} (hfit : Fit (whereDemands 5 condition ++ windowDemands window)) :
    m.fetch activity (m.selectWhere condition window) db =
      .ok ((RowWindow.show window (db.planner.visit t condition [])).map m.recordOf) db := by
  have hrows : RowWindow.show window (db.planner.visit t condition []) ⊆ t.rows := fun row hrow =>
    (db.planner.mem_visit.mp (RowWindow.show_sublist.mem hrow)).1
  rw [fetch_recordIn ht activity (fits_selectWhere.mpr ⟨hown.narrow, hfit⟩), map_recordIn hown hrows]

omit hown ht in
theorem fit_byId (m : Model) (id : Int64) :
    Fit (whereDemands 5 (m.selectById id).condition ++ windowDemands none) :=
  show Fit [.symbols 8, .parameter] by decide

/-- The record of a row is read by the key of the row. -/
theorem fetchById_of_mem (activity : Activity) {row : Row} (hrow : row ∈ t.rows) :
    m.fetchById activity row.id db = .ok (m.recordOf row) db := by
  have hfetch := fetch_selectWhere hown ht activity (fit_byId m row.id)
  rw [RowWindow.show, db.planner.visit_of_singleton (matching_byId hown.sorted hrow)] at hfetch
  rw [fetchById_eq]
  exact runBind_eq_ok.mpr ⟨_, db, hfetch, rfl⟩

/-- A key that no row has is not found. -/
theorem fetchById_of_absent (activity : Activity) {id : Int64} (h : ∀ row ∈ t.rows, row.id ≠ id) :
    m.fetchById activity id db = .error .recordNotFound db := by
  have hfetch := fetch_selectWhere hown ht activity (fit_byId m id)
  rw [db.planner.visit_of_nil (matching_of_absent h)] at hfetch
  rw [fetchById_eq]
  exact runBind_eq_error.mpr (.inr ⟨[], db, hfetch, rfl⟩)

variable {cells : List (String × SqlValue)}

/-- The record of a new row is read by the key that the row got. -/
theorem fetchById_of_new (activity : Activity) {t' : Table} {id : Int64}
    (h : t.insert m.tableName cells = .ok (t', id)) : m.fetchById activity id (db.setTable t') =
      .ok (m.recordOf ⟨id, t.newCells cells⟩) (db.setTable t') := by
  have hsame : sameName t'.name m.tableName := (Table.insert_name h).1 ▸ Database.table?_name ht
  let row : Row := ⟨id, t.newCells cells⟩
  have hrow : row ∈ t'.rows := by
    rw [(Table.insert_eq_ok h).2]
    exact Table.mem_insertRow.mpr (.inl rfl)
  have htable : (db.setTable t').table? m.tableName = some t' :=
    Database.table?_setTable_self ht hsame
  have hown' : m.OwnTable t' := .inserted hown h
  have hrecord : m.fetchById activity row.id (db.setTable t') =
      .ok (m.recordOf row) (db.setTable t') := fetchById_of_mem hown' htable activity hrow
  exact hrecord

omit hown in
theorem insert_refused (hfit : Fit (m.insert cells).demands) {cause : DatabaseFault}
    (h : t.insert m.tableName cells = .error cause) : db.insert (m.insert cells) = .error cause := by
  have htable : db.table (m.insert cells).table = .ok t := Database.table_eq_ok.mpr ht
  have hrefused : t.insert (m.insert cells).table (m.insert cells).cells = .error cause := h
  rw [Database.insert, readText_eq_ok.mpr hfit, ok_bind, htable, ok_bind, hrefused, error_bind]

end

theorem planOn_create (name : String) {record : Record} {cells : List (String × SqlValue)}
    (h : m.encode true record = .ok cells) : (Operation.create name record).planOn m =
      .ok ⟨.write, .record <$> m.createAction (m.insert cells)⟩ := by
  simp only [Operation.planOn, Operation.cellsOf, h, mapError_ok, ok_bind]

/-- Among the records of a table, those of the rows that meet a condition are told apart by being
listed. -/
theorem recordOf_mem_iff (m : Model) {t : Table} (hs : t.Sorted) (planner : Planner)
    (condition : Option Clause) {row : Row} (hrow : row ∈ t.rows) :
    m.recordOf row ∈ (planner.visit t condition []).map m.recordOf ↔
      Clause.selects condition t row = true := by
  constructor
  · intro hmem
    obtain ⟨other, hother, heq⟩ := List.mem_map.mp hmem
    obtain ⟨hin, hselected⟩ := planner.mem_visit.mp hother
    rwa [← hs.eq_of_id hin hrow (id_of_recordOf heq)]
  · intro hselected
    exact List.mem_map_of_mem (planner.mem_visit.mpr ⟨hrow, hselected⟩)

end Model

namespace Session

variable {s : Session} {m : Model} {op : Operation} {db : Database}

/-- What an operation answers. -/
def answer (s : Session) (op : Operation) : Except StoreError Answer :=
  match perform op s with
  | .ok answer _ => .ok answer
  | .error e _ => .error e

theorem perform_of_refused (op : Operation) (hm : s.registry.get op.model = .ok m) {e : StoreError}
    (h : op.planOn m = .error e) : perform op s = .error e s := by
  apply perform_of_fault
  rw [plan_of_get op hm, h]
  rfl

/-- An operation succeeds, and afterwards all records of a model are the given ones, while those of
the other models are what they were. -/
def Leaves (s : Session) (m : Model) (op : Operation) (answer : Answer) (records : List Record) :
    Prop :=
  ∃ s', perform op s = .ok answer s' ∧ s'.everythingOf m.name = .ok (.records records) ∧
    ∀ other ∈ s.registry.models, other ≠ m → s'.everythingOf other.name = s.everythingOf other.name

/-- An operation asks the database for too much: it fails, and changes nothing. -/
def Exceeds (s : Session) (op : Operation) : Prop :=
  ∃ activity cause s', cause.isLimit = true ∧
    perform op s = .error (.operation (.failed activity cause)) s' ∧ s.SameData s'

/-- An operation whose statements are within the limits of the database does what is said, and any
other asks the database for too much. -/
structure Bounded (s : Session) (op : Operation) (within does : Prop) : Prop where
  does : within → does
  exceeds : ¬ within → s.Exceeds op

section
variable {access : Access} {action : Action Answer} {db' : Database}
variable (hget : s.registry.get m.name = .ok m)
variable (hdb : s.databaseOf? (s.connectionOf m access) = some db) (hop : op.model = m.name)
variable (hplan : op.planOn m = .ok ⟨access, action⟩)
include hget hdb hop hplan

/-- The action of an operation on a model runs on the database that its connection leads to. -/
theorem perform_on_database : ∃ handle, s.Leads (s.connectionOf m access) handle db ∧
    perform op s = run (s.connectionOf m access) action s := by
  obtain ⟨handle, hleads⟩ := databaseOf?_eq_some.mp hdb
  have hfound : op.plan s.registry = .ok (m, ⟨access, action⟩) := by
    rw [plan_of_get op (hop ▸ hget), hplan]
    rfl
  exact ⟨handle, hleads, perform_of_plan hfound⟩

theorem answer_of_action {answer : Answer} (haction : action db = .ok answer db') :
    s.answer op = .ok answer := by
  obtain ⟨handle, hleads, hperform⟩ := perform_on_database hget hdb hop hplan
  simp only [Session.answer, hperform, run_of_leads hleads, haction]

theorem answer_of_failure {e : StoreError} (haction : action db = .error e db') :
    s.answer op = .error e := by
  obtain ⟨handle, hleads, hperform⟩ := perform_on_database hget hdb hop hplan
  simp only [Session.answer, hperform, run_of_leads hleads, haction]

/-- An operation whose action fails and leaves the database changes no data. -/
theorem sameData_of_failure {e : StoreError} (haction : action db = .error e db) :
    ∃ s', perform op s = .error e s' ∧ s.SameData s' := by
  obtain ⟨handle, hleads, hperform⟩ := perform_on_database hget hdb hop hplan
  refine ⟨s.setDatabaseAt db handle, ?_, setDatabaseAt_sameData hleads.database⟩
  rw [hperform, run_of_leads hleads, haction]

end

/-- The connection of a session for reading or changing the records of a model reaches a table for it,
which other models may share. -/
structure Views (s : Session) (m : Model) (access : Access) (db : Database) (t : Table) : Prop where
  get : s.registry.get m.name = .ok m
  database : s.databaseOf? (s.connectionOf m access) = some db
  table : db.table? m.tableName = some t

/-- What an open session offers a model: the database that both connections reach, and in it a table
that was made for the model. -/
structure Offers (s : Session) (m : Model) (db : Database) (t : Table) : Prop where
  proper : s.Proper
  registry : s.registry.Proper
  joint : s.Joint
  connected : s.router.Connected
  mem : m ∈ s.registry.models
  database : s.database? = some db
  table : db.table? m.tableName = some t
  own : m.OwnTable t

namespace Offers

variable {t t' : Table} (h : s.Offers m db t)
include h

theorem get : s.registry.get m.name = .ok m := h.registry.get_of_mem h.mem

theorem connectionOf (access : Access) : Known (s.connectionOf m access) := by
  cases access with
  | read => exact (h.connected m).1
  | write => exact (h.connected m).2

theorem databaseOf (access : Access) : s.databaseOf? (s.connectionOf m access) = some db :=
  (h.joint.databaseOf (h.connectionOf access)).trans h.database

theorem views (access : Access) : s.Views m access db t := ⟨h.get, h.databaseOf access, h.table⟩

theorem plan {plan : Plan} (hop : op.model = m.name) (hplan : op.planOn m = .ok plan) :
    op.plan s.registry = .ok (m, plan) := by
  rw [plan_of_get op (hop ▸ h.get), hplan]
  rfl

/-- An operation whose action succeeds leaves the database that the action leaves. -/
theorem perform_eq_ok {plan : Plan} {answer : Answer} {db' : Database} (hop : op.model = m.name)
    (hplan : op.planOn m = .ok plan) (haction : plan.action db = .ok answer db') :
    perform op s = .ok answer (s.setDatabase db') :=
  perform_of_action (h.plan hop hplan) h.joint (h.connectionOf plan.access) h.database haction

theorem perform_eq_error {plan : Plan} {e : StoreError} {db' : Database} (hop : op.model = m.name)
    (hplan : op.planOn m = .ok plan) (haction : plan.action db = .error e db') :
    perform op s = .error e (s.setDatabase db') :=
  perform_of_failure (h.plan hop hplan) h.joint (h.connectionOf plan.access) h.database haction

theorem answer_eq_ok {plan : Plan} {answer : Answer} {db' : Database} (hop : op.model = m.name)
    (hplan : op.planOn m = .ok plan) (haction : plan.action db = .ok answer db') :
    s.answer op = .ok answer := by
  rw [Session.answer, h.perform_eq_ok hop hplan haction]

theorem everythingOf : s.everythingOf m.name = .ok (.records (t.rows.map m.recordOf)) := by
  rw [everythingOf_of_table h.get h.own.narrow (h.databaseOf .read) h.table,
    Model.map_recordIn h.own (List.Subset.refl t.rows)]

/-- The session in which another table of the model stands in the place of the one there was. -/
theorem setTable (hname : t'.name = t.name) (hown : m.OwnTable t') :
    (s.setDatabase (db.setTable t')).Offers m (db.setTable t') t' := by
  have hsetup := sameSetup_setDatabase s (db.setTable t')
  have hsame : sameName t'.name m.tableName := hname ▸ Database.table?_name h.table
  have hdistinct := Database.setTable_distinctNames (h.proper.database h.database) t'
  exact ⟨h.proper.setDatabase hdistinct, hsetup.registry ▸ h.registry, joint_setDatabase.mpr h.joint,
    hsetup.router ▸ h.connected, hsetup.registry ▸ h.mem, setDatabase_database? h.database,
    Database.table?_setTable_self h.table hsame, hown⟩

/-- An operation that puts another table in the place of the one of its model. -/
theorem leaves (hd : DistinctTables s.registry.models) {answer : Answer} (hop : op.model = m.name)
    (hperform : perform op s = .ok answer (s.setDatabase (db.setTable t')))
    (hname : t'.name = t.name) (hown : m.OwnTable t') :
    s.Leaves m op answer (t'.rows.map m.recordOf) := by
  refine ⟨_, hperform, (h.setTable hname hown).everythingOf, fun other hother hne => ?_⟩
  have hkept := everythingOf_perform h.proper h.get (h.registry.get_of_mem hother)
    (hd.apart h.mem hother (Ne.symm hne)) hop
  rwa [hperform] at hkept

/-- A creation adds the row of its record. -/
theorem create_eq_ok {record : Record} {cells : List (String × SqlValue)}
    (hc : m.encode true record = .ok cells) (hfit : Fit (m.insert cells).demands) {id : Int64}
    (hinsert : t.insert m.tableName cells = .ok (t', id)) : perform (.create m.name record) s =
      .ok (.record (m.recordOf ⟨id, t.newCells cells⟩)) (s.setDatabase (db.setTable t')) := by
  have hstatement : db.insert (m.insert cells) = .ok (db.setTable t', id) :=
    Database.insert_eq_ok.mpr ⟨hfit, t, t', h.table, hinsert, rfl⟩
  have hrecord := Model.fetchById_of_new h.own h.table .creatingRecord hinsert
  have haction : m.createAction (m.insert cells) db = .ok _ (db.setTable t') :=
    runBind_eq_ok.mpr ⟨id, _, Action.change_eq_ok.mpr hstatement, hrecord⟩
  exact h.perform_eq_ok rfl (Model.planOn_create m.name hc) (runMap_eq_ok.mpr ⟨_, haction, rfl⟩)

/-- A creation is refused if its statement is. -/
theorem create_of_refused {record : Record} {cells : List (String × SqlValue)}
    (hc : m.encode true record = .ok cells) {cause : DatabaseFault}
    (hstatement : db.insert (m.insert cells) = .error cause) : perform (.create m.name record) s =
      .error (Model.creationError cause) (s.setDatabase db) := by
  have haction : m.createAction (m.insert cells) db = .error (Model.creationError cause) db :=
    runBind_eq_error.mpr (.inl (Action.change_eq_error.mpr ⟨cause, hstatement, rfl, rfl⟩))
  exact h.perform_eq_error rfl (Model.planOn_create m.name hc) (runMap_eq_error.mpr haction)

theorem create_eq_error {record : Record} {cells : List (String × SqlValue)}
    (hc : m.encode true record = .ok cells) (hfit : Fit (m.insert cells).demands)
    {cause : DatabaseFault} (hinsert : t.insert m.tableName cells = .error cause) :
    perform (.create m.name record) s = .error (Model.creationError cause) (s.setDatabase db) :=
  h.create_of_refused hc (Model.insert_refused h.table hfit hinsert)

end Offers

/-- A serving session that is open offers every model its table, if both connections reach the same
database. -/
theorem Serving.offers {good : Json → Prop} (h : Serving good s) (hopen : s.isClosed = false)
    (hj : s.Joint) (hr : s.router.Connected) (hm : m ∈ s.registry.models) :
    ∃ db t, s.Offers m db t ∧ m.Filled good t := by
  obtain ⟨db, hdb⟩ := h.database_of_open hopen
  obtain ⟨t, ht, hfilled⟩ := (h.hosts hdb).filled m hm
  exact ⟨db, t, ⟨h.served.reachable.proper, h.served.reachable.registry_proper, hj, hr, hm, hdb,
    ht, hfilled.own⟩, hfilled⟩

end Session

end RecordStore
