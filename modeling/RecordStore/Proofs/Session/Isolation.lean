import RecordStore.Proofs.Session.Refusal
import RecordStore.Proofs.Session.Opening
import RecordStore.Proofs.Database.FirstRow

/-!
# Isolation of models

An operation on one model leaves all records of another model as they are, if the names of their
tables differ without regard to case. The registry compares the names with regard to case. Two
models whose tables have different spellings of one name share a table, and then there is an
operation on the one that changes the records of the other.
-/

namespace RecordStore

/-- Every operation runs on one of the two connections. -/
def Router.Connected (router : Router) : Prop :=
  ∀ m, Session.Known (router.forRead m) ∧ Session.Known (router.forWrite m)

theorem Router.connected_default : Router.default.Connected := fun _ => ⟨.inr rfl, .inl rfl⟩

namespace Model

/-- The statement that reads all records of a model. -/
def selectAll (m : Model) : Select := ⟨m.tableName, m.columns.map Column.name, none, [], none⟩

/-- The record of a row of a table that the model reads. -/
def recordIn (m : Model) (t : Table) (row : Row) : Record :=
  m.decode (m.columns.map fun column => (t.read row column.name).2)

/-- Whatever the planners are, the selection of all records depends on the table only. -/
theorem select_selectAll_congr {m : Model} {db db' : Database}
    (h : db'.table? m.tableName = db.table? m.tableName) :
    db'.select m.selectAll = db.select m.selectAll := by
  simp only [Database.select, Database.table, selectAll, h, Planner.scan]

theorem select_selectAll {m : Model} (hm : m.Narrow) {db : Database} {t : Table}
    (ht : db.table? m.tableName = some t) : (db.select m.selectAll).map (·.map m.decode) =
      .ok (t.rows.map (m.recordIn t)) := by
  have hcolumns : m.selectAll.columns.length ≤ columnLimit := (List.length_map _).symm ▸ hm
  have hselect : db.select m.selectAll = .ok (t.rows.map fun row =>
      m.selectAll.columns.map fun name => (t.read row name).2) := by
    refine Database.select_eq_ok.mpr ⟨⟨.nil, hcolumns, Nat.zero_le _⟩, t, t.rows, ht, ?_, rfl⟩
    rw [show m.selectAll.condition = none from rfl, show m.selectAll.order = [] from rfl,
      db.planner.scan]
    rfl
  rw [hselect, map_ok, List.map_map]
  refine congrArg Except.ok (List.map_congr_left fun row _ => ?_)
  simp only [Function.comp_apply, recordIn, selectAll, List.map_map]
  rfl

end Model

namespace Session

variable {s s' : Session} {name : String} {m a b : Model}

/-- All records of a model, as a listing without a filter answers. -/
def everythingOf (s : Session) (name : String) : Except StoreError Answer :=
  match perform (.list name .everything) s with
  | .ok answer _ => .ok answer
  | .error e _ => .error e

/-- What the listing answers, in terms of the database. -/
theorem everythingOf_eq (hm : s.registry.get name = .ok m) : s.everythingOf name =
    match s.databaseOf? (s.connectionOf m .read) with
    | none => .error (.connection (.notInitialized (s.connectionOf m .read)))
    | some db => (((db.select m.selectAll).map (·.map m.decode)).map .records).mapError
        (Action.refusal .fetchingRecords) := by
  have hplan : (Operation.list name .everything).plan s.registry =
      .ok (m, ⟨.read, .records <$> m.fetch .fetchingRecords m.selectAll⟩) := by
    rw [plan_of_get (.list name .everything) hm]
    rfl
  have haction (db : Database) :
      (.records <$> m.fetch .fetchingRecords m.selectAll : Action Answer) db =
        match db.select m.selectAll with
        | .ok rows => .ok (.records (rows.map m.decode)) db
        | .error cause => .error (Action.refusal .fetchingRecords cause) db := by
    show EStateM.map _ (EStateM.bind (Action.read _ _) _) db = _
    simp only [EStateM.map, EStateM.bind, Action.read]
    cases db.select m.selectAll <;> rfl
  rw [everythingOf, perform_of_plan hplan]
  cases hdb : s.databaseOf? (s.connectionOf m .read) with
  | none => simp only [run_of_missing hdb]
  | some db =>
    obtain ⟨handle, hleads⟩ := databaseOf?_eq_some.mp hdb
    simp only [run_of_leads hleads, haction]
    cases db.select m.selectAll <;> rfl

/-- The listing depends only on the table of the model. -/
theorem everythingOf_congr (hm : s.registry.get name = .ok m) (hs : s.SameSetup s')
    (h : (s'.databaseOf? (s.connectionOf m .read)).map (·.table? m.tableName) =
      (s.databaseOf? (s.connectionOf m .read)).map (·.table? m.tableName)) :
    s'.everythingOf name = s.everythingOf name := by
  have hm' : s'.registry.get name = .ok m := hs.registry ▸ hm
  have hc : s'.connectionOf m .read = s.connectionOf m .read := by
    simp only [connectionOf, hs.router]
  rw [everythingOf_eq hm, everythingOf_eq hm', hc]
  cases hdb : s.databaseOf? (s.connectionOf m .read) with
  | none =>
    rw [hdb, Option.map_none, Option.map_eq_none_iff] at h
    rw [h]
  | some db =>
    rw [hdb, Option.map_some, Option.map_eq_some_iff] at h
    obtain ⟨db', hdb', htable⟩ := h
    simp only [hdb', Model.select_selectAll_congr htable]

theorem everythingOf_of_table (hm : s.registry.get name = .ok m) (hnarrow : m.Narrow)
    {db : Database} (hdb : s.databaseOf? (s.connectionOf m .read) = some db) {t : Table}
    (ht : db.table? m.tableName = some t) :
    s.everythingOf name = .ok (.records (t.rows.map (m.recordIn t))) := by
  rw [everythingOf_eq hm, hdb]
  simp only [Model.select_selectAll hnarrow ht]
  rfl

/-! ## Different tables -/

/-- An operation on a model whose table has another name changes nothing in the listing. -/
theorem everythingOf_perform (hs : s.Proper) (ha : s.registry.get a.name = .ok a)
    (hb : s.registry.get b.name = .ok b) (hn : sameName a.tableName b.tableName = false)
    {op : Operation} (hop : op.model = a.name) :
    (stateOf (perform op s)).everythingOf b.name = s.everythingOf b.name := by
  have hkept {m : Model} {name : String} {handle : Handle} {db db' : Database}
      (hget : s.registry.get op.model = .ok m) (hleads : s.Leads name handle db)
      (hw : m.WritesAll db db') (connection : String) :
      ((s.setDatabaseAt db' handle).databaseOf? connection).map (·.table? b.tableName) =
        (s.databaseOf? connection).map (·.table? b.tableName) := by
    rw [hop, ha] at hget
    cases hget
    exact databaseOf?_setDatabaseAt hleads.database (hw.table?_of_ne hn) connection
  apply everythingOf_congr hb (sameSetup_perform op s)
  cases hperform : perform op s with
  | ok answer s' =>
    obtain ⟨m, plan, handle, db, db', hplan, hleads, _, hw, rfl⟩ := perform_eq_ok hperform
    exact hkept (plan_eq_ok hplan).1 hleads hw _
  | error e s' =>
    rcases perform_eq_error hs hperform with
      rfl | ⟨m, plan, handle, db, db', hplan, hleads, _, hw, _, rfl⟩
    · rfl
    · exact hkept (plan_eq_ok hplan).1 hleads hw _

/-! ## A shared table -/

/-- A session creates the first record of an empty table. -/
theorem perform_create_sample {db : Database} (hdb : s.database? = some db) {t : Table}
    (ht : db.table? m.tableName = some t) (hown : m.OwnTable t) (hrows : t.rows = [])
    (hsequence : t.sequence = 0) (hm : m.validate = .ok ()) (hget : s.registry.get m.name = .ok m)
    (hj : s.Joint) (hr : s.router.Connected) : ∃ db' t' record,
      perform (.create m.name m.sampleRecord) s = .ok (.record record) (s.setDatabase db') ∧
        db'.table? m.tableName = some t' ∧ t'.rows.length = 1 := by
  obtain ⟨t', id, hinsert, hlength⟩ := hown.insert_sampleCells hrows hsequence m.tableName
  have hstatement : db.insert (m.insert m.sampleCells) = .ok (db.setTable t', id) :=
    Database.insert_eq_ok.mpr ⟨m.fit_sampleCells hown.narrow, t, t', ht, hinsert, rfl⟩
  obtain ⟨record, hfetch⟩ := Model.fetchById_of_insert hown.narrow hstatement .creatingRecord
  have haction : m.createAction (m.insert m.sampleCells) db = .ok record (db.setTable t') :=
    runBind_eq_ok.mpr ⟨id, _, Action.change_eq_ok.mpr hstatement, hfetch⟩
  have hplan : (Operation.create m.name m.sampleRecord).plan s.registry =
      .ok (m, ⟨.write, .record <$> m.createAction (m.insert m.sampleCells)⟩) := by
    have hcells := Operation.cellsOf_eq_ok.mpr (Model.encode_sampleRecord hm true)
    rw [plan_of_get (.create m.name m.sampleRecord) hget]
    simp only [Operation.planOn, hcells, ok_bind, map_ok]
  have hname : sameName t'.name m.tableName :=
    (Table.insert_name hinsert).1 ▸ Database.table?_name ht
  exact ⟨db.setTable t', t', record,
    perform_of_action hplan hj (hr m).2 hdb (runMap_eq_ok.mpr ⟨record, haction, rfl⟩),
    Database.table?_setTable_self ht hname, hlength⟩

/-- The removal of all records of one model shows in the listing of another one that shares its
table. -/
theorem everythingOf_deleteAll_ne (ha : s.registry.get a.name = .ok a)
    (hb : s.registry.get b.name = .ok b) (hnarrow : b.Narrow) (hj : s.Joint)
    (hr : s.router.Connected) (hsame : sameName a.tableName b.tableName = true) {db : Database}
    (hdb : s.database? = some db)
    {t : Table} (ht : db.table? a.tableName = some t) (hrows : t.rows ≠ []) :
    (stateOf (perform (.deleteAll a.name (.object [])) s)).everythingOf b.name ≠
      s.everythingOf b.name := by
  have htb : db.table? b.tableName = some t := (Database.table?_congr hsame db).symm.trans ht
  have hname : sameName t.name b.tableName := Database.table?_name htb
  have hfilter : Filter.ofJson (.object []) = .ok (.all []) := rfl
  have hdelete := deleteAll_of_unrestricted ha hfilter rfl hj (hr a).2 hdb ht
  have hsetup := sameSetup_perform (.deleteAll a.name (.object [])) s
  rw [hdelete] at hsetup ⊢
  have hempty : (db.setTable { t with rows := [] }).table? b.tableName =
      some { t with rows := [] } := Database.table?_setTable_self htb hname
  have hread {s : Session} (hj : s.Joint) (hr : s.router.Connected) :
      s.databaseOf? (s.connectionOf b .read) = s.database? := hj.databaseOf (hr b).1
  have hjoint : (s.setDatabase (db.setTable { t with rows := [] })).Joint := joint_setDatabase.mpr hj
  have hafter := everythingOf_of_table (hsetup.registry ▸ hb) hnarrow
    ((hread hjoint (hsetup.router ▸ hr)).trans (setDatabase_database? hdb)) hempty
  rw [everythingOf_of_table hb hnarrow ((hread hj hr).trans hdb) htb]
  intro heq
  apply hrows
  rw [stateOf, hafter] at heq
  simpa using heq.symm

/-- Two models whose tables have the same name but for case: after the creation of one record, the
removal of all records of the one model shows in the listing of the other. -/
theorem exists_interference (hr : s.registry.Proper) (hopen : s.OpensFresh s') (hj : s'.Joint)
    (ha : a ∈ s.registry.models) (hb : b ∈ s.registry.models) (hnarrow : b.Narrow)
    (hc : s.router.Connected) (hsame : sameName a.tableName b.tableName = true) :
    ∃ events op, op.model = a.name ∧
      (stateOf (perform op (s'.afterAll events))).everythingOf b.name ≠
        (s'.afterAll events).everythingOf b.name := by
  obtain ⟨db, hdb, hnew, hall⟩ := hopen.tables
  obtain ⟨t, ht⟩ := hall a ha
  obtain ⟨hrows, hsequence, c, hcm, hown, hname⟩ := hnew t (Database.table?_mem ht)
  have hca : sameName c.tableName a.tableName := hname ▸ Database.table?_name ht
  have htc : db.table? c.tableName = some t := (Database.table?_congr hca db).trans ht
  have hsetup : s.SameSetup s' := (opened_of_init hopen.init).1
  have hget {m : Model} (hm : m ∈ s.registry.models) : s.registry.get m.name = .ok m :=
    hr.get_of_mem hm
  obtain ⟨db₁, t₁, record, hcreate, ht₁, hlength⟩ := perform_create_sample hdb htc hown hrows
    hsequence (hr.valid c hcm) (hsetup.registry ▸ hget hcm) hj (hsetup.router ▸ hc)
  have hcreated : s'.afterAll [.operation (.create c.name c.sampleRecord)] = s'.setDatabase db₁ := by
    show stateOf (perform _ s') = _
    rw [hcreate]
    rfl
  have hsetup₁ : s.SameSetup (s'.setDatabase db₁) := hsetup.trans (sameSetup_setDatabase s' db₁)
  refine ⟨[.operation (.create c.name c.sampleRecord)], .deleteAll a.name (.object []), rfl, ?_⟩
  rw [hcreated]
  exact everythingOf_deleteAll_ne (hsetup₁.registry ▸ hget ha) (hsetup₁.registry ▸ hget hb)
    hnarrow (joint_setDatabase.mpr hj) (hsetup₁.router ▸ hc) hsame (setDatabase_database? hdb)
    ((Database.table?_congr hca db₁).symm.trans ht₁) (List.ne_nil_of_length_eq_add_one hlength)

/-- Models are isolated exactly if the names of their tables differ without regard to case. If they
differ, no operation on the one model, successful or not, changes the listing of the other in any
state after the opening. If they are the same but for case, some operation does in some state, given
that both connections reach the same database, and that the other model has not too many columns to be
listed at all. -/
theorem models_isolated (h : s.Reachable) (hopen : s.OpensFresh s')
    (ha : a ∈ s.registry.models) (hb : b ∈ s.registry.models) :
    (sameName a.tableName b.tableName = false → ∀ events op, op.model = a.name →
      (stateOf (perform op (s'.afterAll events))).everythingOf b.name =
        (s'.afterAll events).everythingOf b.name) ∧
    (sameName a.tableName b.tableName = true → b.Narrow → s'.Joint → s.router.Connected → ∃ events op,
      op.model = a.name ∧ (stateOf (perform op (s'.afterAll events))).everythingOf b.name ≠
        (s'.afterAll events).everythingOf b.name) := by
  have hr := h.registry_proper
  refine ⟨fun hn events op hop => ?_, fun hsame hnarrow hj hc =>
    exists_interference hr hopen hj ha hb hnarrow hc hsame⟩
  obtain ⟨hopening, hreachable⟩ := opened_of_init hopen.init
  have hsetup := hopening.trans (sameSetup_afterAll s' events)
  exact everythingOf_perform ((hreachable h).afterAll events).proper
    (hsetup.registry ▸ hr.get_of_mem ha) (hsetup.registry ▸ hr.get_of_mem hb) hn hop

/-- A configuration with the tables `item` and `ITEM`. -/
def spellingConfig : DatabaseConfig := ⟨"sqlite://:memory:", "test",
  [⟨"Item", none, [.plain "name" .text]⟩, ⟨"Other", some "ITEM", [.plain "title" .text]⟩]⟩

/-- A session with that configuration and no connections. -/
def spellingSession : Session :=
  ⟨spellingConfig, .of "test" spellingConfig.models, .default, none, ⟨[]⟩, .default⟩

/-- The registry accepts both models, and they are not isolated. -/
theorem interference_of_spelling : ∃ events op, op.model = "Item" ∧
    (stateOf (perform op ((spellingSession.after .init).afterAll events))).everythingOf "Other" ≠
      ((spellingSession.after .init).afterAll events).everythingOf "Other" := by
  have hopened : spellingSession.Reachable :=
    .opened (FileTree.proper_ofTexts []) (rfl : ofConfig spellingConfig .default _ = .ok _)
  have hopen : spellingSession.OpensFresh (spellingSession.after .init) :=
    ⟨rfl, .memory, _, rfl, rfl, rfl⟩
  exact (models_isolated hopened hopen (a := ⟨"Item", none, [.plain "name" .text]⟩)
    (b := ⟨"Other", some "ITEM", [.plain "title" .text]⟩) List.mem_cons_self
    (List.mem_cons_of_mem _ List.mem_cons_self)).2 (by decide) (by decide)
    rfl Router.connected_default

end Session

end RecordStore
