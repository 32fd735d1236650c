import RecordStore.Proofs.Session.Opening
import RecordStore.Proofs.Model.Filled

/-!
# Serving

A session serves from the time when its connections were opened on a database without tables. Events
happen to it, failing ones among them; it may be closed and opened again. If the names of the tables
differ without regard to case, then in all that time every model has a table of its own in the open
database, filled from the records of the operations on this model and no others.
-/

namespace RecordStore

/-- The names of the tables differ without regard to case. -/
def DistinctTables (models : List Model) : Prop :=
  models.Pairwise fun a b => sameName a.tableName b.tableName = false

theorem DistinctTables.apart {models : List Model} (h : DistinctTables models) {a b : Model}
    (ha : a ∈ models) (hb : b ∈ models) (hne : a ≠ b) :
    sameName a.tableName b.tableName = false := by
  have hsymm : Std.Symm fun a b : Model => sameName a.tableName b.tableName = false :=
    ⟨fun a b hab => (sameName_comm b.tableName a.tableName).trans hab⟩
  exact List.Pairwise.forall h ha hb hne

theorem Model.OwnTable.creation {m : Model} {t : Table} (h : m.OwnTable t) : ∃ s,
    m.createTable = .ok s ∧ s.columns = t.columns ∧
      Database.checkColumns s ["_id"] s.columns = .ok () := by
  induction h with
  | created hs hc => exact ⟨_, hs, rfl, hc⟩
  | inserted _ h ih => rwa [(Table.insert_name h).2]
  | updated _ h ih => rwa [(Table.update_name h).2]
  | deleted condition _ ih => exact ih

/-- A new table of a model is filled from no records. -/
theorem Model.OwnTable.filled_of_new {m : Model} {t : Table} (h : m.OwnTable t)
    (hname : t.name = m.tableName) (hrows : t.rows = []) (hsequence : t.sequence = 0)
    (good : Json → Prop) : m.Filled good t := by
  obtain ⟨s, hs, hcolumns, hc⟩ := h.creation
  have htable : s.table = m.tableName := by
    simp only [createTable, bind_eq_ok, Except.ok.injEq] at hs
    obtain ⟨_, _, rfl⟩ := hs
    rfl
  have hnew : t = ⟨s.table, s.columns, [], 0⟩ := by
    obtain ⟨name, columns, rows, sequence⟩ := t
    simp only [Table.mk.injEq]
    exact ⟨hname.trans htable.symm, hcolumns.symm, hrows, hsequence⟩
  rw [hnew]
  exact .created hs hc

namespace Database

/-- Every model has a table of its own, filled from records whose members `good` admits. -/
structure Hosts (good : Json → Prop) (models : List Model) (db : Database) : Prop where
  distinct : db.DistinctNames
  filled : ∀ m ∈ models, ∃ t, db.table? m.tableName = some t ∧ m.Filled good t

variable {good : Json → Prop} {models : List Model} {db db' : Database}

theorem Hosts.tables (h : db.Hosts good models) {m : Model} (hm : m ∈ models) :
    (db.table? m.tableName).isSome := by
  obtain ⟨t, ht, _⟩ := h.filled m hm
  exact Option.isSome_iff_exists.mpr ⟨t, ht⟩

/-- The table of one model is replaced by another of its tables. -/
theorem Hosts.setTable (h : db.Hosts good models) (hd : DistinctTables models) {m : Model}
    (hm : m ∈ models) {t t' : Table} (ht : db.table? m.tableName = some t) (hname : t'.name = t.name)
    (hfilled : m.Filled good t') : (db.setTable t').Hosts good models := by
  have hsame : sameName t'.name m.tableName := hname ▸ table?_name ht
  refine ⟨setTable_distinctNames h.distinct t', fun other hother => ?_⟩
  by_cases heq : other = m
  · exact ⟨t', heq ▸ table?_setTable_self ht hsame, heq ▸ hfilled⟩
  · obtain ⟨u, hu, hu'⟩ := h.filled other hother
    have happart : sameName t'.name other.tableName = false := by
      rw [sameName_congr hsame]
      exact hd.apart hm hother (Ne.symm heq)
    exact ⟨u, by rw [table?_setTable_of_ne happart, hu], hu'⟩

end Database

namespace Operation

/-- What the records that an operation may store give to the fields of JSON values of its model are
values that `good` admits. -/
def Brings (good : Json → Prop) (models : List Model) (op : Operation) : Prop :=
  ∀ m ∈ models, m.name = op.model → ∀ record ∈ op.records, m.Admits good record

theorem brings_any (models : List Model) (op : Operation) : op.Brings (fun _ => True) models :=
  fun m _ _ record _ => m.admits_any record

/-- The statements of an operation on one model leave every model a table of its own. -/
theorem covers_hosts {good : Json → Prop} {models : List Model} (hd : DistinctTables models)
    {m : Model} (hm : m ∈ models) {op : Operation} (hname : m.name = op.model)
    (hop : op.Brings good models) :
    op.Covers (fun db db' => db.Hosts good models → db'.Hosts good models) m where
  refl _ h := h
  trans _ _ _ hab hbc h := hbc (hab h)
  insert record hrecord cells hc db db' id h hdb := by
    obtain ⟨_, t, t', ht, hi, rfl⟩ := Database.insert_eq_ok.mp h
    obtain ⟨u, hu, hfilled⟩ := hdb.filled m hm
    cases hu.symm.trans ht
    have hgood := hop m hm hname record (mem_records_of_created hrecord)
    exact hdb.setTable hd hm ht (Table.insert_name hi).1 (.inserted hfilled hgood hc hi)
  update record hrecord cells hc filter s hs db db' n h hdb := by
    obtain ⟨_, t, t', ht, hu, rfl⟩ := Database.update_eq_ok.mp h
    obtain ⟨htable, hcells⟩ := Model.update_table hs
    rw [htable] at ht
    rw [hcells] at hu
    obtain ⟨u, hu', hfilled⟩ := hdb.filled m hm
    cases hu'.symm.trans ht
    have hgood := hop m hm hname record (mem_records_of_changes hrecord)
    exact hdb.setTable hd hm ht (Table.update_name hu).1 (.updated hfilled hgood hc hu)
  delete _ filter s hs db db' n h hdb := by
    obtain ⟨_, t, ht, _, rfl⟩ := Database.delete_eq_ok.mp h
    rw [Model.delete_table hs] at ht
    obtain ⟨u, hu, hfilled⟩ := hdb.filled m hm
    cases hu.symm.trans ht
    have hname : (t.delete s.condition).1.name = t.name := rfl
    exact hdb.setTable hd hm ht hname (.deleted s.condition hfilled)

end Operation

namespace Session

variable {good : Json → Prop} {s s' : Session} {db db' : Database}

/-- The records that an event may store give to fields of JSON values what `good` admits. -/
def Event.Brings (good : Json → Prop) (models : List Model) : Event → Prop
  | .init | .close => True
  | .operation op => op.Brings good models
  | .command c => ∀ files op, c.operation? files = .ok (some op) → op.Brings good models

/-- What comes about after the connections were opened on a database without tables. The names of
the tables differ without regard to case, and what is stored in fields of JSON values, defaults among
it, is such as `good` admits. -/
inductive Serving (good : Json → Prop) : Session → Prop
  | opened {s s' : Session} (h : s.Reachable) (hd : DistinctTables s.registry.models)
      (hg : ∀ m ∈ s.registry.models, m.GoodDefaults good) (ho : s.OpensFresh s') : Serving good s'
  | after {s : Session} {event : Event} (h : Serving good s)
      (he : event.Brings good s.registry.models) :
      Serving good (s.after event)

theorem Event.Brings.mono {good' : Json → Prop} (hgood : ∀ value, good value → good' value)
    {models : List Model} {event : Event} (h : event.Brings good models) :
    event.Brings good' models := by
  cases event with
  | init | close => trivial
  | operation op =>
    exact fun m hm hname record hrecord member hmember f hf hfname hkind =>
      hgood _ (h m hm hname record hrecord member hmember f hf hfname hkind)
  | command c =>
    exact fun files op hop m hm hname record hrecord member hmember f hf hfname hkind =>
      hgood _ (h files op hop m hm hname record hrecord member hmember f hf hfname hkind)

/-- What admits more values admits the same sessions. -/
theorem Serving.mono {good' : Json → Prop} (hgood : ∀ value, good value → good' value)
    (h : Serving good s) : Serving good' s := by
  induction h with
  | opened h hd hg ho =>
    exact .opened h hd
      (fun m hm f hf hkind value hvalue => hgood _ (hg m hm f hf hkind value hvalue)) ho
  | after _ he ih => exact .after ih (he.mono hgood)

/-- Where the data of a session are: in the memory that both connections share, in the file that both
lead to, or in the memory of the first connection, if the path denotes one for each connection.
Whenever there are any, they have a property. -/
def Located (P : Database → Prop) (s : Session) : Location → Prop
  | .memory => ∀ c, s.connections = some c → ∃ db, c = .ofMemory db ∧ P db
  | .file path =>
    (∃ place db, s.files.LeadsTo path place db ∧ P db ∧
      ∀ c, s.connections = some c → c = .ofFile s.planner place) ∨
    s.files.DenotesOwn path ∧ ∀ c, s.connections = some c → ∃ db, c = .ofOwn s.planner db ∧ P db

/-- What every serving session keeps. -/
structure Served (good : Json → Prop) (s : Session) : Prop where
  reachable : s.Reachable
  distinct : DistinctTables s.registry.models
  defaults : ∀ m ∈ s.registry.models, m.GoodDefaults good
  created : ∃ db, (s.registry.models.forM createTable : Action Unit) (.empty s.planner) = .ok () db
  located : ∃ location, Location.ofUri s.config.uri = .ok location ∧
    s.Located (·.Hosts good s.registry.models) location

theorem hosts_of_newFor {models : List Model} (hd : DistinctTables models) (hdb : db.DistinctNames)
    (hnew : NewFor models db) (hall : ∀ m ∈ models, (db.table? m.tableName).isSome)
    (good : Json → Prop) : db.Hosts good models := by
  refine ⟨hdb, fun m hm => ?_⟩
  obtain ⟨t, ht⟩ := Option.isSome_iff_exists.mp (hall m hm)
  obtain ⟨hrows, hsequence, other, hother, hown, hname⟩ := hnew t (Database.table?_mem ht)
  have hsame : sameName other.tableName m.tableName := hname ▸ Database.table?_name ht
  have heq : other = m := by
    by_contra hne
    rw [hd.apart hother hm hne] at hsame
    cases hsame
  subst heq
  exact ⟨t, ht, hown.filled_of_new hname hrows hsequence good⟩

/-- The tables made in a database without tables are a table of its own for every model. -/
theorem hosts_of_creation {planner : Planner} {models : List Model} (hd : DistinctTables models)
    (h : (models.forM createTable : Action Unit) (.empty planner) = .ok () db) (good : Json → Prop) :
    db.Hosts good models := by
  have hempty : NewFor models (.empty planner) := fun t ht => absurd ht List.not_mem_nil
  have hnames := createTables_distinctNames models (Database.empty_distinctNames planner)
  rw [h] at hnames
  exact hosts_of_newFor hd hnames (createTables_newFor (fun _ hm => hm) h hempty)
    (createTables_keeps h).1 good

theorem exists_connections (hopen : s.isClosed = false) : ∃ c, s.connections = some c := by
  rw [← Option.ne_none_iff_exists']
  intro hnone
  simp [isClosed, hnone] at hopen

section
variable {P Q : Database → Prop} {location : Location} {handle : Handle} {name : String}

/-- Both connections lead to where the data are, unless the path denotes a database for each. -/
theorem Located.joint (h : s.Located P location)
    (hshared : ∀ path, location = .file path → Target.ofPath path ≠ .ok .own) : s.Joint := by
  have hhandles : ∀ c, s.connections = some c → c.slave = c.master := by
    intro c hc
    cases location with
    | memory =>
      obtain ⟨db, rfl, _⟩ := h c hc
      rfl
    | file path =>
      obtain ⟨_, _, _, _, hplace⟩ | ⟨hown, _⟩ := h
      · rw [hplace c hc]
        rfl
      · exact absurd hown.target (hshared path rfl)
  unfold Joint handle?
  cases hc : s.connections with
  | none => rfl
  | some c => exact congrArg some (hhandles c hc)

/-- A session that is open has a database where its data are. -/
theorem Located.database (h : s.Located P location) {c : Connections} (hc : s.connections = some c) :
    ∃ db, s.database? = some db ∧ P db := by
  cases location with
  | memory =>
    obtain ⟨db, rfl, hholds⟩ := h c hc
    exact ⟨db, database?_of_memory hc, hholds⟩
  | file path =>
    obtain ⟨place, db, hleads, hholds, hplace⟩ | ⟨_, hmemory⟩ := h
    · exact ⟨db, database?_of_node (hplace c hc ▸ hc) hleads.node, hholds⟩
    · obtain ⟨db, rfl, hholds⟩ := hmemory c hc
      exact ⟨db, database?_of_own hc, hholds⟩

/-- In a session that is open, every connection leads to a database. -/
theorem Located.databaseOf_of_open (h : s.Located P location) (hopen : s.isClosed = false)
    (hname : Known name) : ∃ db, s.databaseOf? name = some db := by
  obtain ⟨c, hc⟩ := exists_connections hopen
  obtain ⟨db, hdb, _⟩ := h.database hc
  have hjoint (hshared : ∀ path, location = .file path → Target.ofPath path ≠ .ok .own) :
      ∃ db, s.databaseOf? name = some db := ⟨db, ((h.joint hshared).databaseOf hname).trans hdb⟩
  cases location with
  | memory => exact hjoint nofun
  | file path =>
    obtain ⟨_, _, hleads, _⟩ | ⟨_, hmemory⟩ := h
    · refine hjoint fun _ heq htarget => ?_
      cases heq
      obtain ⟨_, hfile, _⟩ := hleads.follow
      cases hfile.symm.trans htarget
    · rcases hname with rfl | rfl
      · exact ⟨db, hdb⟩
      · obtain ⟨_, rfl, _⟩ := hmemory c hc
        refine ⟨.empty s.planner, ?_⟩
        rw [databaseOf?, handle?, hc]
        show s.databaseAt? (.memory 1) = _
        rw [databaseAt?, hc]
        rfl

theorem Located.holds (h : s.Located P location) (hdb : s.database? = some db) : P db := by
  cases hc : s.connections with
  | none => cases (database?_of_closed hc).symm.trans hdb
  | some c =>
    obtain ⟨db', hdb', hholds⟩ := h.database hc
    cases hdb'.symm.trans hdb
    exact hholds

theorem Located.imp (h : s.Located P location) (hPQ : ∀ db, P db → Q db) :
    s.Located Q location := by
  cases location with
  | memory =>
    intro c hc
    obtain ⟨db, hmemory, hholds⟩ := h c hc
    exact ⟨db, hmemory, hPQ db hholds⟩
  | file path =>
    obtain ⟨place, db, hleads, hholds, hplace⟩ | ⟨hown, hmemory⟩ := h
    · exact .inl ⟨place, db, hleads, hPQ db hholds, hplace⟩
    · refine .inr ⟨hown, fun c hc => ?_⟩
      obtain ⟨db, heq, hholds⟩ := hmemory c hc
      exact ⟨db, heq, hPQ db hholds⟩

/-- Another database takes the place of the open one. -/
theorem Located.setDatabase (h : s.Located P location) (hdb : s.database? = some db)
    (hQ : Q db') : (s.setDatabase db').Located Q location := by
  cases hc : s.connections with
  | none => cases (database?_of_closed hc).symm.trans hdb
  | some c =>
    cases location with
    | memory =>
      obtain ⟨_, rfl, _⟩ := h c hc
      rw [setDatabase_of_memory hc]
      intro c' hc'
      cases hc'
      exact ⟨db', rfl, hQ⟩
    | file path =>
      obtain ⟨place, _, hleads, _, hplace⟩ | ⟨hown, hmemory⟩ := h
      · rw [setDatabase_of_file (hplace c hc ▸ hc)]
        exact .inl ⟨place, db', hleads.set db', hQ, hplace⟩
      · obtain ⟨_, rfl, _⟩ := hmemory c hc
        rw [setDatabase_of_own hc]
        refine .inr ⟨hown, fun c' hc' => ?_⟩
        cases hc'
        exact ⟨db', rfl, hQ⟩

theorem Located.close (hl : s.Located P location) : (stateOf (close s)).Located P location := by
  cases location with
  | memory => exact nofun
  | file path =>
    obtain ⟨place, db, hleads, hholds, _⟩ | ⟨hown, _⟩ := hl
    · exact .inl ⟨place, db, hleads, hholds, nofun⟩
    · exact .inr ⟨hown, nofun⟩

/-- A connection leads to the data, or to a database without tables. -/
theorem Located.of_leads (hl : s.Located P location) (h : s.Leads name handle db) :
    s.database? = some db ∧ s.handle? masterName = some handle ∨
      db = .empty s.planner ∧ s.setDatabaseAt (.empty s.planner) handle = s := by
  have hjoint (hj : s.Joint) : s.database? = some db ∧ s.handle? masterName = some handle :=
    ⟨(hj.leads h).databaseOf, (hj.leads h).found⟩
  rcases Known.of_leads h with rfl | rfl
  · exact .inl ⟨h.databaseOf, h.found⟩
  cases location with
  | memory => exact .inl (hjoint (hl.joint nofun))
  | file path =>
    by_cases hshared : Target.ofPath path = .ok .own
    · obtain ⟨_, _, hleads, _⟩ | ⟨_, hmemory⟩ := hl
      · obtain ⟨_, htarget, _⟩ := hleads.follow
        cases htarget.symm.trans hshared
      · obtain ⟨c, hc, hfound⟩ := Option.bind_eq_some_iff.mp h.found
        obtain ⟨_, rfl, _⟩ := hmemory c hc
        cases hfound
        have hdatabase := h.database
        simp only [databaseAt?, hc] at hdatabase
        cases hdatabase
        exact .inr ⟨rfl, setDatabaseAt_of_own hc⟩
    · exact .inl (hjoint (hl.joint fun _ heq => Location.file.inj heq ▸ hshared))

/-- A session that has connected is located where it connected to. -/
theorem located_of_connect (h : connect location s = .ok () s') (hP : P db) :
    (s'.setDatabase db).Located P location := by
  cases location with
  | memory =>
    cases h
    intro c hc
    cases hc
    exact ⟨db, rfl, hP⟩
  | file path =>
    obtain ⟨made, hmake, ⟨files, place, hopen, rfl⟩ | ⟨hown, rfl⟩⟩ := connect_file_eq_ok h
    · obtain ⟨_, hleads⟩ := FileTree.leadsTo_of_open hmake hopen
      refine .inl ⟨place, db, hleads.set db, hP, fun c hc => ?_⟩
      cases hc
      rfl
    · refine .inr ⟨hown, fun c hc => ?_⟩
      cases hc
      exact ⟨db, rfl, hP⟩

theorem stateOf_run {action : Action Unit} (hdb : s.database? = some db) :
    stateOf (run masterName action s) = s.setDatabase (stateOf (action db)) := by
  rw [run_master hdb]
  cases action db <;> rfl

/-- An opening that reaches a database makes the tables there. -/
theorem stateOf_init_of_connect {s₁ : Session} (huri : Location.ofUri s.config.uri = .ok location)
    (hconnect : connect location s = .ok () s₁) (hdb : s₁.database? = some db) :
    stateOf (init s) =
      s₁.setDatabase (stateOf ((s.registry.models.forM createTable : Action Unit) db)) := by
  have hattempt : (do
      let location ← MonadExcept.ofExcept ((Location.ofUri s.config.uri).mapError .connection)
      connect location
      run masterName (s.registry.models.forM createTable) : Step Unit) s =
        run masterName (s.registry.models.forM createTable) s₁ := by
    rw [huri]
    show EStateM.bind (connect location) _ s = _
    simp only [EStateM.bind, hconnect]
  rw [stateOf_init, hattempt, stateOf_run hdb]

/-- Opening a database in memory makes a new one. -/
theorem located_of_init_memory (huri : Location.ofUri s.config.uri = .ok .memory)
    (hcreated : (s.registry.models.forM createTable : Action Unit) (.empty s.planner) = .ok () db)
    (hP : P db) :
    (stateOf (init s)).Located P .memory := by
  have hconnect : connect .memory s =
      .ok () { s with connections := some (.ofMemory (.empty s.planner)) } := rfl
  rw [stateOf_init_of_connect huri hconnect rfl, hcreated, setDatabase_of_memory rfl]
  intro c hc
  cases hc
  exact ⟨db, rfl, hP⟩

/-- Opening the file again finds the tables there and changes none. -/
theorem stateOf_init_reopen {path : String} {place : Place}
    (huri : Location.ofUri s.config.uri = .ok (.file path)) (hleads : s.files.LeadsTo path place db)
    (hall : ∀ m ∈ s.registry.models, (db.table? m.tableName).isSome) :
    stateOf (init s) = { s with
      connections := some (.ofFile s.planner place)
      files := s.files.set place (.database db) } := by
  have hconnect := connect_of_open hleads.parent hleads.reopen
  have hdb : ({ s with connections := some (.ofFile s.planner place) } : Session).database? =
      some db := database?_of_node rfl hleads.node
  rw [stateOf_init_of_connect huri hconnect hdb, stateOf_createTables hall, setDatabase_of_file rfl]

/-- Opening databases of their own for both connections makes the tables in a new one. -/
theorem located_of_init_own {path : String} (huri : Location.ofUri s.config.uri = .ok (.file path))
    (hown : s.files.DenotesOwn path)
    (hcreated : (s.registry.models.forM createTable : Action Unit) (.empty s.planner) = .ok () db)
    (hP : P db) :
    (stateOf (init s)).Located P (.file path) := by
  rw [stateOf_init_of_connect huri (connect_of_own hown) (database?_of_own rfl), hcreated,
    setDatabase_of_own rfl]
  refine .inr ⟨hown, fun c hc => ?_⟩
  cases hc
  exact ⟨db, rfl, hP⟩

/-- Opening the path again finds the file with its tables, or makes these anew in memory. -/
theorem Located.reopen {path : String} (huri : Location.ofUri s.config.uri = .ok (.file path))
    (hl : s.Located P (.file path))
    (hnew : Target.ofPath path = .ok .own →
      ∃ db, (s.registry.models.forM createTable : Action Unit) (.empty s.planner) = .ok () db ∧ P db)
    (hall : ∀ db, P db → ∀ m ∈ s.registry.models, (db.table? m.tableName).isSome) :
    (stateOf (init s)).Located P (.file path) := by
  obtain ⟨place, db, hleads, hP, _⟩ | ⟨hown, _⟩ := hl
  · rw [stateOf_init_reopen huri hleads (hall db hP)]
    refine .inl ⟨place, db, hleads.set db, hP, fun c hc => ?_⟩
    cases hc
    rfl
  · obtain ⟨db, hcreated, hP⟩ := hnew hown.target
    exact located_of_init_own huri hown hcreated hP

/-- What an operation does to a session: nothing, or it takes the open database to one that is in
every relation that its statements keep. -/
theorem Located.stateOf_perform_cases (hl : s.Located P location) (hs : s.Reachable) (op : Operation)
    {R : Model → Database → Database → Prop}
    (hR : ∀ m ∈ s.registry.models, m.name = op.model → op.Covers (R m) m) :
    stateOf (perform op s) = s ∨
      ∃ db db', s.database? = some db ∧ stateOf (perform op s) = s.setDatabase db' ∧
        ∃ m ∈ s.registry.models, m.WritesAll db db' ∧ R m db db' := by
  have hcases {m : Model} {name : String} {handle : Handle} {db db' : Database}
      (hm : m ∈ s.registry.models) (hleads : s.Leads name handle db) (hwrites : m.WritesAll db db')
      (hrelated : R m db db') : s.setDatabaseAt db' handle = s ∨
        ∃ db db₁, s.database? = some db ∧ s.setDatabaseAt db' handle = s.setDatabase db₁ ∧
          ∃ m ∈ s.registry.models, m.WritesAll db db₁ ∧ R m db db₁ := by
    rcases hl.of_leads hleads with ⟨hdb, hmaster⟩ | ⟨rfl, hsame⟩
    · exact .inr ⟨db, db', hdb, (setDatabase_eq hmaster db').symm, m, hm, hwrites, hrelated⟩
    · rw [hwrites.eq_of_empty]
      exact .inl hsame
  cases hrun : Session.perform op s with
  | ok answer s' =>
    obtain ⟨m, plan, handle, db, db', hplan, hleads, haction, hwrites, rfl⟩ := perform_eq_ok hrun
    obtain ⟨hget, hplanOn⟩ := plan_eq_ok hplan
    have hm := hs.registry_proper.get_mem hget
    have hkeeps := Operation.planOn_keeps (hR m hm (hs.registry_proper.get_name hget)) hplanOn
    exact hcases hm hleads hwrites (hkeeps.commits haction)
  | error e s' =>
    rcases perform_eq_error hs.proper hrun with
      rfl | ⟨m, plan, handle, db, db', hplan, hleads, haction, hwrites, _, rfl⟩
    · exact .inl rfl
    · obtain ⟨hget, hplanOn⟩ := plan_eq_ok hplan
      have hm := hs.registry_proper.get_mem hget
      have hkeeps := Operation.planOn_keeps (hR m hm (hs.registry_proper.get_name hget)) hplanOn
      exact hcases hm hleads hwrites
        (hkeeps.leaves (hs.proper.databaseAt hleads.database) haction)

/-- What a command does to a session: nothing, or what its operation does. -/
theorem stateOf_command_cases (c : Command) (s : Session) : stateOf (c.run s) = s ∨
    ∃ op, c.operation? s.files = .ok (some op) ∧ stateOf (c.run s) = stateOf (perform op s) := by
  rcases command_run_cases c s with ⟨_, hrun⟩ | ⟨_, hrun⟩ | ⟨op, hop, hrun⟩
  · rw [hrun]
    exact .inl rfl
  · rw [hrun]
    exact .inl rfl
  · rw [hrun, stateOf_map]
    exact .inr ⟨op, hop, rfl⟩

end

/-! ## What events keep -/

section
variable {P : Database → Prop} {location : Location}

/-- The statements that an event may run keep a property of databases. -/
def Event.Keeps (P : Database → Prop) (models : List Model) : Event → Prop
  | .init | .close => True
  | .operation op => ∀ m ∈ models, m.name = op.model → op.Covers (fun db db' => P db → P db') m
  | .command c => ∀ files op, c.operation? files = .ok (some op) →
      ∀ m ∈ models, m.name = op.model → op.Covers (fun db db' => P db → P db') m

theorem Located.perform (hl : s.Located P location) (hs : s.Reachable) {op : Operation}
    (hop : ∀ m ∈ s.registry.models, m.name = op.model → op.Covers (fun db db' => P db → P db') m) :
    (stateOf (perform op s)).Located P location := by
  rcases hl.stateOf_perform_cases hs op hop with heq | ⟨db, db', hdb, heq, hkept⟩
  · rwa [heq]
  · obtain ⟨_, _, _, hstep⟩ := hkept
    rw [heq]
    exact hl.setDatabase hdb (hstep (hl.holds hdb))

/-- The data stay where they are, and keep what the statements of an event keep. Opening again finds
the tables in the file, or makes them anew in memory. -/
theorem Located.after (hl : s.Located P location) (hs : s.Reachable)
    (huri : Location.ofUri s.config.uri = .ok location)
    (hnew : (∀ path, location = .file path → Target.ofPath path = .ok .own) →
      ∃ db, (s.registry.models.forM createTable : Action Unit) (.empty s.planner) = .ok () db ∧ P db)
    (hall : ∀ db, P db → ∀ m ∈ s.registry.models, (db.table? m.tableName).isSome) {event : Event}
    (he : event.Keeps P s.registry.models) : (s.after event).Located P location := by
  cases event with
  | init =>
    cases location with
    | memory =>
      obtain ⟨db, hcreated, hholds⟩ := hnew nofun
      exact located_of_init_memory huri hcreated hholds
    | file path =>
      exact hl.reopen huri (fun hown => hnew fun _ heq => Location.file.inj heq ▸ hown) hall
  | close => exact hl.close
  | operation op => exact hl.perform hs he
  | command c =>
    show (stateOf (c.run s)).Located P location
    rcases stateOf_command_cases c s with heq | ⟨op, hop, heq⟩
    · rwa [heq]
    · rw [heq]
      exact hl.perform hs (he _ op hop)

end

/-- An event on one model leaves every model a table of its own. -/
theorem Event.keeps_hosts {models : List Model} (hd : DistinctTables models) {event : Event}
    (he : event.Brings good models) : event.Keeps (·.Hosts good models) models := by
  cases event with
  | init | close => trivial
  | operation op => exact fun m hm hname => Operation.covers_hosts hd hm hname he
  | command c =>
    exact fun files op hop m hm hname => Operation.covers_hosts hd hm hname (he files op hop)

/-- Every event leaves a session that is served. -/
theorem Served.after (h : s.Served good) {event : Event}
    (he : event.Brings good s.registry.models) :
    (s.after event).Served good := by
  have hsetup := sameSetup_after s event
  obtain ⟨location, huri, hl⟩ := h.located
  obtain ⟨db, hcreated⟩ := h.created
  have hcreated' : db.Hosts good s.registry.models := hosts_of_creation h.distinct hcreated good
  have hlocated : (s.after event).Located (·.Hosts good s.registry.models) location :=
    hl.after h.reachable huri (fun _ => ⟨db, hcreated, hcreated'⟩)
      (fun _ hhosts _ hm => hhosts.tables hm) (Event.keeps_hosts h.distinct he)
  have hagain : ∃ db, ((s.after event).registry.models.forM createTable : Action Unit)
      (.empty (s.after event).planner) = .ok () db := by
    rw [hsetup.registry, hsetup.planner]
    exact ⟨db, hcreated⟩
  exact ⟨h.reachable.after event, hsetup.registry ▸ h.distinct, hsetup.registry ▸ h.defaults,
    hagain, location, hsetup.config ▸ huri, hsetup.registry ▸ hlocated⟩

/-- The opening makes the tables of all models, and the data are where it connected to. -/
theorem OpensFresh.located (ho : s.OpensFresh s') : s.SameSetup s' ∧ ∃ location db,
    Location.ofUri s.config.uri = .ok location ∧
      (s.registry.models.forM createTable : Action Unit) (.empty s.planner) = .ok () db ∧
        ∀ P : Database → Prop, P db → s'.Located P location := by
  obtain ⟨location, s₁, db, db', huri, hconnect, hdb, htables, rfl⟩ := init_eq_ok ho.init
  obtain ⟨location', s₁', huri', hconnect', hempty⟩ := ho.fresh
  cases huri.symm.trans huri'
  cases hconnect.symm.trans hconnect'
  cases hdb.symm.trans hempty
  exact ⟨(opened_of_init ho.init).1, location, db', huri, htables, fun P hP =>
    located_of_connect hconnect hP⟩

/-- The opening itself. -/
theorem Served.opened (h : s.Reachable) (hd : DistinctTables s.registry.models)
    (hg : ∀ m ∈ s.registry.models, m.GoodDefaults good) (ho : s.OpensFresh s') :
    s'.Served good := by
  obtain ⟨hsetup, location, db, huri, htables, hlocated⟩ := ho.located
  have hhosts := hosts_of_creation hd htables good
  have hagain : (s'.registry.models.forM createTable : Action Unit) (.empty s'.planner) =
      .ok () db := by
    rw [hsetup.registry, hsetup.planner, htables]
  exact ⟨(opened_of_init ho.init).2 h, hsetup.registry ▸ hd, hsetup.registry ▸ hg,
    ⟨db, hagain⟩, location, hsetup.config ▸ huri,
    hsetup.registry ▸ hlocated _ hhosts⟩

theorem Serving.served (h : Serving good s) : s.Served good := by
  induction h with
  | opened h hd hg ho => exact .opened h hd hg ho
  | after _ he ih => exact ih.after he

/-- A serving session that is not closed has a database. -/
theorem Serving.database_of_open (h : Serving good s) (hopen : s.isClosed = false) :
    ∃ db, s.database? = some db := by
  obtain ⟨c, hc⟩ := exists_connections hopen
  obtain ⟨_, _, hlocated⟩ := h.served.located
  exact (hlocated.database hc).imp fun _ hdb => hdb.1

/-- Both connections of a serving session reach the same database, unless its path denotes one in
memory for each. -/
theorem Serving.joint (h : Serving good s) (hshared : ∀ path,
    Location.ofUri s.config.uri = .ok (.file path) → Target.ofPath path ≠ .ok .own) : s.Joint := by
  obtain ⟨_, huri, hlocated⟩ := h.served.located
  exact hlocated.joint fun path heq => hshared path (heq ▸ huri)

/-- While a session serves, every model has a table of its own in the open database. -/
theorem Serving.hosts (h : Serving good s) (hdb : s.database? = some db) :
    db.Hosts good s.registry.models := by
  obtain ⟨_, _, hlocated⟩ := h.served.located
  exact hlocated.holds hdb

theorem Serving.narrow (h : Serving good s) {m : Model} (hm : m ∈ s.registry.models) :
    m.Narrow := by
  obtain ⟨db, hcreated⟩ := h.served.created
  obtain ⟨t, _, hfilled⟩ := (hosts_of_creation h.served.distinct hcreated good).filled m hm
  exact hfilled.own.narrow

/-- The model of persons with different names. -/
def uniquePerson : Model := ⟨"Person", none, [⟨"name", .text, false, true, none⟩]⟩

/-- A session of persons with different names, as it serves after its opening. -/
def personSession : Session := uniqueSession.after .init

theorem serving_personSession (good : Json → Prop) : Serving good personSession := by
  have hopened : uniqueSession.Reachable :=
    .opened (FileTree.proper_ofTexts []) (rfl : ofConfig uniqueConfig .default _ = .ok _)
  have hopen : uniqueSession.OpensFresh personSession := ⟨rfl, .memory, _, rfl, rfl, rfl⟩
  have hdistinct : DistinctTables uniqueSession.registry.models := List.pairwise_singleton _ _
  refine .opened hopened hdistinct (fun m hm f hf _ value hvalue => ?_) hopen
  obtain rfl := List.mem_singleton.mp hm
  obtain rfl := List.mem_singleton.mp hf
  cases hvalue

/-- The model of games with a score, which may be missing. -/
def gameModel : Model := ⟨"Game", none, [.plain "player" .text, ⟨"score", .float, true, false, none⟩]⟩

def gameConfig : DatabaseConfig := ⟨"sqlite://:memory:", "test", [gameModel]⟩

/-- A session of games with that configuration and no connections. -/
def gameClosed : Session := ⟨gameConfig, .of "test" gameConfig.models, .default, none, ⟨[]⟩, .default⟩

/-- The session of games as it serves after its opening. -/
def gameSession : Session := gameClosed.after .init

theorem serving_gameSession (good : Json → Prop) : Serving good gameSession := by
  have hopened : gameClosed.Reachable :=
    .opened (FileTree.proper_ofTexts []) (rfl : ofConfig gameConfig .default _ = .ok _)
  have hopen : gameClosed.OpensFresh gameSession := ⟨rfl, .memory, _, rfl, rfl, rfl⟩
  have hdistinct : DistinctTables gameClosed.registry.models := List.pairwise_singleton _ _
  refine .opened hopened hdistinct (fun m hm f hf _ value hvalue => ?_) hopen
  obtain rfl := List.mem_singleton.mp hm
  simp only [gameModel, List.mem_cons, List.not_mem_nil, or_false] at hf
  rcases hf with rfl | rfl <;> cases hvalue

end Session

end RecordStore
