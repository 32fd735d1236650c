import RecordStore.Proofs.Session.Reopening
import RecordStore.Session.Basic

/-!
# Connections and what they reach

An action runs on the database that the handle of its connection leads to, and leaves the rest of the
session as it is. The two connections to a database in memory share one handle, and those to a file
lead to the same place; only where a path denotes a database in memory by itself does each connection
reach one of its own.
-/

namespace RecordStore

namespace Connections

/-- Both connections lead to a file. -/
def ofFile (planner : Planner) (place : Place) : Connections :=
  ⟨.file place, .file place, [.empty planner, .empty planner]⟩

/-- Each connection reaches a database in memory of its own, of which the second one has no tables. -/
def ofOwn (planner : Planner) (db : Database) : Connections :=
  ⟨.memory 0, .memory 1, [db, .empty planner]⟩

end Connections

namespace Session

variable {s s' : Session} {db db' : Database} {handle : Handle} {name : String} {planner : Planner}

/-! ## Databases at handles -/

theorem handle?_setDatabaseAt (s : Session) (db : Database) (handle : Handle) (name : String) :
    (s.setDatabaseAt db handle).handle? name = s.handle? name := by
  cases handle with
  | memory number =>
    cases hc : s.connections with
    | none => simp [setDatabaseAt, handle?, hc]
    | some c => simp [setDatabaseAt, handle?, hc, Connections.handle?]
  | file place => rfl

theorem databaseAt?_setDatabaseAt_self (hdb : s.databaseAt? handle = some db) :
    (s.setDatabaseAt db' handle).databaseAt? handle = some db' := by
  cases handle with
  | memory number =>
    obtain ⟨c, hc, hmemory⟩ := Option.bind_eq_some_iff.mp hdb
    obtain ⟨hnumber, _⟩ := List.getElem?_eq_some_iff.mp hmemory
    simp [setDatabaseAt, databaseAt?, hc, hnumber]
  | file place =>
    unfold databaseAt? at hdb
    simp only at hdb
    split at hdb
    next hnode =>
      have hne : s.files.node? place ≠ some .directory := by simp [hnode]
      simp only [setDatabaseAt, databaseAt?, FileTree.node?_set_self hne]
    · cases hdb

theorem databaseAt?_setDatabaseAt_of_ne {other : Handle} (hne : other ≠ handle) :
    (s.setDatabaseAt db handle).databaseAt? other = s.databaseAt? other := by
  cases handle with
  | memory number =>
    cases other with
    | memory number' =>
      have hnumber : number ≠ number' := fun heq => hne (heq ▸ rfl)
      cases hc : s.connections <;> simp [setDatabaseAt, databaseAt?, hc, hnumber]
    | file place => rfl
  | file place =>
    cases other with
    | memory number => rfl
    | file place' =>
      have hplace : place' ≠ place := fun heq => hne (heq ▸ rfl)
      simp only [setDatabaseAt, databaseAt?, FileTree.node?_set_of_ne hplace]

/-- Of two databases that are written one after another, the second stays. -/
theorem setDatabaseAt_setDatabaseAt (s : Session) (db db' : Database) (handle : Handle) :
    (s.setDatabaseAt db handle).setDatabaseAt db' handle = s.setDatabaseAt db' handle := by
  cases handle with
  | memory number => cases hc : s.connections <;> simp [setDatabaseAt, hc]
  | file place => simp only [setDatabaseAt, FileTree.set_set]

/-- The database that the connection of a name reaches. -/
def databaseOf? (s : Session) (name : String) : Option Database :=
  (s.handle? name).bind s.databaseAt?

/-- What is seen of a database at a handle stays the same through all connections, if the database
that is written there looks the same. -/
theorem databaseOf?_setDatabaseAt {α : Type} {f : Database → α}
    (hdb : s.databaseAt? handle = some db) (hf : f db' = f db) (name : String) :
    ((s.setDatabaseAt db' handle).databaseOf? name).map f = (s.databaseOf? name).map f := by
  rw [databaseOf?, databaseOf?, handle?_setDatabaseAt]
  cases s.handle? name with
  | none => rfl
  | some other =>
    rw [Option.bind_some, Option.bind_some]
    by_cases hother : other = handle
    · rw [hother, databaseAt?_setDatabaseAt_self hdb, hdb, Option.map_some, Option.map_some, hf]
    · rw [databaseAt?_setDatabaseAt_of_ne hother]

/-- Two sessions hold the same data: every table that a connection reaches, and every table of the
databases in files, has the same rows and the same counter. -/
structure SameData (s s' : Session) : Prop where
  database : ∀ name, s'.databaseOf? name = s.databaseOf? name
  files : ∀ place, s'.files.node? place = s.files.node? place

theorem SameData.refl (s : Session) : s.SameData s := ⟨fun _ => rfl, fun _ => rfl⟩

/-- Writing back what was read changes no data. -/
theorem setDatabaseAt_sameData (hdb : s.databaseAt? handle = some db) :
    s.SameData (s.setDatabaseAt db handle) := by
  refine ⟨fun name => ?_, fun place => ?_⟩
  · simpa using databaseOf?_setDatabaseAt (f := id) hdb rfl name
  · cases handle with
    | memory number => rfl
    | file found =>
      unfold databaseAt? at hdb
      simp only at hdb
      split at hdb
      next hnode =>
        cases hdb
        exact FileTree.node?_set_same hnode place
      · cases hdb

/-! ## Running an action -/

/-- The connection of a name leads to a database. -/
structure Leads (s : Session) (name : String) (handle : Handle) (db : Database) : Prop where
  found : s.handle? name = some handle
  database : s.databaseAt? handle = some db

theorem Leads.databaseOf (h : s.Leads name handle db) : s.databaseOf? name = some db := by
  rw [databaseOf?, h.found, Option.bind_some, h.database]

theorem databaseOf?_eq_some : s.databaseOf? name = some db ↔ ∃ handle, s.Leads name handle db := by
  constructor
  · intro h
    obtain ⟨handle, hhandle, hdb⟩ := Option.bind_eq_some_iff.mp h
    exact ⟨handle, hhandle, hdb⟩
  · rintro ⟨handle, h⟩
    exact h.databaseOf

theorem Leads.setDatabaseAt (h : s.Leads name handle db) (db' : Database) :
    (s.setDatabaseAt db' handle).Leads name handle db' :=
  ⟨(handle?_setDatabaseAt s db' handle name).trans h.found, databaseAt?_setDatabaseAt_self h.database⟩

variable {α : Type} {action : Action α}

theorem run_of_leads (h : s.Leads name handle db) (action : Action α) :
    run name action s = match action db with
      | .ok v db' => .ok v (s.setDatabaseAt db' handle)
      | .error e db' => .error e (s.setDatabaseAt db' handle) := by
  cases haction : action db with
  | ok v db' => simp only [run, h.found, h.database, haction]
  | error e db' => simp only [run, h.found, h.database, haction]

/-- Where the connection leads nowhere, nothing is run. -/
theorem run_of_missing (h : s.databaseOf? name = none) (action : Action α) :
    run name action s = .error (.connection (.notInitialized name)) s := by
  unfold run
  cases hhandle : s.handle? name with
  | none => rfl
  | some handle =>
    rw [databaseOf?, hhandle, Option.bind_some] at h
    simp only [h]

theorem run_eq_ok {v : α} (h : run name action s = .ok v s') : ∃ handle db db',
    s.Leads name handle db ∧ action db = .ok v db' ∧ s' = s.setDatabaseAt db' handle := by
  cases hdb : s.databaseOf? name with
  | none =>
    rw [run_of_missing hdb] at h
    cases h
  | some db =>
    obtain ⟨handle, hleads⟩ := databaseOf?_eq_some.mp hdb
    rw [run_of_leads hleads] at h
    split at h
    next db' haction =>
      cases h
      exact ⟨handle, db, db', hleads, haction, rfl⟩
    · cases h

/-- Running an action fails as the action does, or because there is no connection. -/
theorem run_eq_error {e : StoreError} (h : run name action s = .error e s') :
    e = .connection (.notInitialized name) ∧ s' = s ∨ ∃ handle db db',
      s.Leads name handle db ∧ action db = .error e db' ∧ s' = s.setDatabaseAt db' handle := by
  cases hdb : s.databaseOf? name with
  | none =>
    rw [run_of_missing hdb] at h
    cases h
    exact .inl ⟨rfl, rfl⟩
  | some db =>
    obtain ⟨handle, hleads⟩ := databaseOf?_eq_some.mp hdb
    rw [run_of_leads hleads] at h
    split at h
    · cases h
    next db' haction =>
      cases h
      exact .inr ⟨handle, db, db', hleads, haction, rfl⟩

/-! ## Connections that reach the same database -/

/-- Both connections lead to the same place. -/
def Joint (s : Session) : Prop := s.handle? slaveName = s.handle? masterName

/-- The database that the first connection reaches. -/
def database? (s : Session) : Option Database := s.databaseOf? masterName

/-- The session with another database where the first connection leads to. -/
def setDatabase (s : Session) (db : Database) : Session :=
  match s.handle? masterName with
  | none => s
  | some handle => s.setDatabaseAt db handle

theorem handle?_setDatabase (s : Session) (db : Database) (name : String) :
    (s.setDatabase db).handle? name = s.handle? name := by
  unfold setDatabase
  split
  · rfl
  · exact handle?_setDatabaseAt ..

theorem joint_setDatabase : (s.setDatabase db).Joint ↔ s.Joint := by
  rw [Joint, Joint, handle?_setDatabase, handle?_setDatabase]

theorem setDatabase_eq (h : s.handle? masterName = some handle) (db : Database) :
    s.setDatabase db = s.setDatabaseAt db handle := by
  rw [setDatabase, h]

theorem setDatabase_database? (hdb : s.database? = some db) :
    (s.setDatabase db').database? = some db' := by
  obtain ⟨handle, hleads⟩ := databaseOf?_eq_some.mp hdb
  rw [setDatabase_eq hleads.found]
  exact (hleads.setDatabaseAt db').databaseOf

theorem setDatabase_sameData (hdb : s.database? = some db) : s.SameData (s.setDatabase db) := by
  obtain ⟨handle, hleads⟩ := databaseOf?_eq_some.mp hdb
  rw [setDatabase_eq hleads.found]
  exact setDatabaseAt_sameData hleads.database

/-- An action on the first connection. -/
theorem run_master (hdb : s.database? = some db) (action : Action α) :
    run masterName action s = match action db with
      | .ok v db' => .ok v (s.setDatabase db')
      | .error e db' => .error e (s.setDatabase db') := by
  obtain ⟨handle, hleads⟩ := databaseOf?_eq_some.mp hdb
  rw [run_of_leads hleads]
  simp only [setDatabase_eq hleads.found]

theorem run_master_eq_ok {v : α} (h : run masterName action s = .ok v s') : ∃ db db',
    s.database? = some db ∧ action db = .ok v db' ∧ s' = s.setDatabase db' := by
  obtain ⟨handle, db, db', hleads, haction, rfl⟩ := run_eq_ok h
  exact ⟨db, db', hleads.databaseOf, haction, (setDatabase_eq hleads.found db').symm⟩

/-- A name of one of the two connections. -/
def Known (name : String) : Prop := name = masterName ∨ name = slaveName

theorem handle?_eq_none (h : ¬ Known name) (s : Session) : s.handle? name = none := by
  obtain ⟨hmaster, hslave⟩ := not_or.mp h
  simp only [handle?, Connections.handle?, if_neg hmaster, if_neg hslave, Option.bind_fun_none]

theorem Joint.found (h : s.Joint) (hname : Known name) : s.handle? name = s.handle? masterName := by
  rcases hname with rfl | rfl
  · rfl
  · exact h

theorem Known.of_leads (h : s.Leads name handle db) : Known name := by
  by_contra hunknown
  cases (handle?_eq_none hunknown s).symm.trans h.found

/-- Whatever connection is used, the first one leads there, too. -/
theorem Joint.leads (hj : s.Joint) (h : s.Leads name handle db) : s.Leads masterName handle db :=
  ⟨(hj.found (.of_leads h)).symm.trans h.found, h.database⟩

theorem Joint.databaseOf (h : s.Joint) (hname : Known name) : s.databaseOf? name = s.database? := by
  rw [database?, databaseOf?, databaseOf?, h.found hname]

/-- An action runs on the one database that there is. -/
theorem run_of_database (h : s.Joint) (hname : Known name) (hdb : s.database? = some db)
    (action : Action α) : run name action s = match action db with
      | .ok v db' => .ok v (s.setDatabase db')
      | .error e db' => .error e (s.setDatabase db') := by
  obtain ⟨handle, hleads⟩ := databaseOf?_eq_some.mp hdb
  have hhandle := (h.found hname).trans hleads.found
  rw [run_of_leads ⟨hhandle, hleads.database⟩]
  simp only [setDatabase_eq hleads.found]

/-! ## In memory and in files -/

section
variable {c : Connections} {place : Place}

theorem database?_of_master (hc : s.connections = some c) : s.database? = s.databaseAt? c.master := by
  have hfound : s.handle? masterName = some c.master := by
    rw [handle?, hc]
    rfl
  rw [database?, databaseOf?, hfound, Option.bind_some]

theorem database?_of_closed (hc : s.connections = none) : s.database? = none := by
  rw [database?, databaseOf?, handle?, hc]
  rfl

theorem database?_of_memory (hc : s.connections = some (.ofMemory db)) : s.database? = some db := by
  rw [database?_of_master hc, Connections.ofMemory, databaseAt?, hc]
  rfl

/-- In memory every connection reaches the one database. -/
theorem databaseOf?_of_memory (hc : s.connections = some (.ofMemory db)) (hname : Known name) :
    s.databaseOf? name = some db := by
  have hjoint : s.Joint := by
    rw [Joint, handle?, handle?, hc]
    rfl
  exact (hjoint.databaseOf hname).trans (database?_of_memory hc)

theorem database?_of_own (hc : s.connections = some (.ofOwn planner db)) : s.database? = some db := by
  rw [database?_of_master hc, Connections.ofOwn, databaseAt?, hc]
  rfl

theorem database?_of_node (hc : s.connections = some (.ofFile planner place))
    (hnode : s.files.node? place = some (.database db)) : s.database? = some db := by
  rw [database?_of_master hc, Connections.ofFile]
  simp only [databaseAt?, hnode]

theorem setDatabase_of_memory (hc : s.connections = some (.ofMemory db)) :
    s.setDatabase db' = { s with connections := some (.ofMemory db') } := by
  have hfound : s.handle? masterName = some (.memory 0) := by
    rw [handle?, hc]
    rfl
  rw [setDatabase_eq hfound, setDatabaseAt, hc]
  rfl

theorem setDatabase_of_own (hc : s.connections = some (.ofOwn planner db)) :
    s.setDatabase db' = { s with connections := some (.ofOwn planner db') } := by
  have hfound : s.handle? masterName = some (.memory 0) := by
    rw [handle?, hc]
    rfl
  rw [setDatabase_eq hfound, setDatabaseAt, hc]
  rfl

/-- The second one of two databases has no tables, and goes on to have none. -/
theorem setDatabaseAt_of_own (hc : s.connections = some (.ofOwn planner db)) :
    s.setDatabaseAt (.empty planner) (.memory 1) = s := by
  rw [setDatabaseAt, hc]
  show { s with connections := some (.ofOwn planner db) } = s
  rw [← hc]

theorem setDatabase_of_file (hc : s.connections = some (.ofFile planner place)) :
    s.setDatabase db = { s with files := s.files.set place (.database db) } := by
  have hfound : s.handle? masterName = some (.file place) := by
    rw [handle?, hc]
    rfl
  rw [setDatabase_eq hfound, setDatabaseAt]

end

/-! ## Opening the connections -/

/-- Both connections to a file lead to the place where it is, since the second one finds what the
first one made. Where a path denotes a database in memory, each connection has one of its own. -/
theorem connect_file_eq_ok {path : String} (h : connect (.file path) s = .ok () s') :
    ∃ made, s.files.makeParent path = .ok made ∧
      ((∃ files place, made.openPath s.planner path = .ok (files, some place) ∧ s' = { s with
        connections := some (.ofFile s.planner place), files := files }) ∨
      made.DenotesOwn path ∧
        s' = { s with connections := some (.ofOwn s.planner (.empty s.planner)), files := made }) := by
  unfold connect at h
  simp only at h
  split at h
  · cases h
  next made hmake =>
    refine ⟨made, hmake, ?_⟩
    split at h
    · cases h
    next files master hopen =>
      cases master with
      | some place =>
        obtain ⟨db, hleads⟩ := FileTree.leadsTo_of_open hmake hopen
        simp only [hleads.reopen] at h
        cases h
        exact .inl ⟨files, place, hopen, rfl⟩
      | none =>
        obtain ⟨rfl, hown⟩ := FileTree.denotesOwn_of_open hmake hopen
        simp only [hopen] at h
        cases h
        exact .inr ⟨hown, rfl⟩

theorem connect_of_open {path : String} {made files : FileTree} {place : Place}
    (hmake : s.files.makeParent path = .ok made)
    (hopen : made.openPath s.planner path = .ok (files, some place)) :
    connect (.file path) s = .ok () { s with
      connections := some (.ofFile s.planner place), files := files } := by
  obtain ⟨db, hleads⟩ := FileTree.leadsTo_of_open hmake hopen
  simp only [connect, hmake, hopen, hleads.reopen]
  rfl

theorem connect_of_own {path : String} (h : s.files.DenotesOwn path) :
    connect (.file path) s =
      .ok () { s with connections := some (.ofOwn s.planner (.empty s.planner)) } := by
  simp only [connect, h.parent, h.reopen]
  rfl

end Session

end RecordStore
