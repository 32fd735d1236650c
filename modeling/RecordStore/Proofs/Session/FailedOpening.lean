import Mathlib.Logic.Function.Basic
import RecordStore.Proofs.Session.Schema

/-!
# Openings that fail

What an opening that fails leaves behind. Where the place of the data cannot be reached, nothing but
directories is made. Where the table of a model is refused, the connections are open, and the tables
of the models before it have been made: the tables of an application are not made at once.
-/

namespace RecordStore

/-- A database cannot be reached for another reason than that a table is refused. -/
def ConnectionError.OfPlace (reason : ConnectionError) : Prop :=
  ∀ table fault, reason ≠ .tableNotCreated table fault

theorem Target.ofPath_eq_error {path : String} {reason : ConnectionError}
    (h : ofPath path = .error reason) : reason.OfPlace := by
  rintro table fault rfl
  unfold ofPath at h
  split at h
  · rcases bind_eq_error.mp h with hauthority | ⟨text, _, hrest⟩
    · unfold Uri.afterAuthority at hauthority
      split at hauthority
      · simp only at hauthority
        split at hauthority <;> cases hauthority
      · cases hauthority
    · rcases bind_eq_error.mp hrest with hoptions | ⟨_, _, htarget⟩
      · obtain ⟨option, _, hoption⟩ := forM_eq_error hoptions
        unfold Uri.checkOption at hoption
        split at hoption
        · split at hoption <;> cases hoption
        · split at hoption <;> cases hoption
        · cases hoption
      · simp only at htarget
        split at htarget <;> cases htarget
  · cases h

namespace FileTree

variable {tree tree' : FileTree} {place other : Place} {path : String} {planner : Planner}

/-- The database in a file. -/
def database? (tree : FileTree) (place : Place) : Option Database :=
  match tree.node? place with
  | some (.database db) => some db
  | _ => none

theorem database?_of_node {db : Database} (h : tree.node? place = some (.database db)) :
    tree.database? place = some db := by
  simp only [database?, h]

theorem database?_set_directory (h : tree.node? place = none) :
    (tree.set place .directory).database? = tree.database? := by
  funext other
  by_cases heq : other = place
  · subst heq
    have hset : (tree.set other .directory).node? other = some .directory :=
      node?_set_self (by rw [h]; exact nofun)
    simp only [database?, hset, h]
  · simp only [database?, node?_set_of_ne heq]

theorem database?_set_database (h : tree.node? place ≠ some .directory) (db : Database) :
    (tree.set place (.database db)).database? = Function.update tree.database? place (some db) := by
  funext other
  by_cases heq : other = place
  · subst heq
    rw [Function.update_self, database?_of_node (node?_set_self h)]
  · rw [Function.update_of_ne heq]
    simp only [database?, node?_set_of_ne heq]

theorem database?_makeDirectories {steps : List String}
    (h : tree.makeDirectories place steps = .ok tree') : tree'.database? = tree.database? := by
  induction steps generalizing tree place with
  | nil =>
    cases h
    rfl
  | cons step rest ih =>
    simp only [makeDirectories] at h
    split at h
    · exact ih h
    · cases h
    next hnone => rw [ih h, database?_set_directory hnone]

/-- Making the directories on the way to a file changes no database. -/
theorem database?_makeParent (h : tree.makeParent path = .ok tree') :
    tree'.database? = tree.database? := by
  unfold makeParent at h
  simp only at h
  split at h
  · cases h
  · split at h
    · cases h
      rfl
    · exact database?_makeDirectories h

theorem openDatabase_eq_error {name : String} {reason : ConnectionError}
    (h : tree.openDatabase planner path name = .error reason) : reason.OfPlace := by
  rintro table fault rfl
  unfold openDatabase at h
  simp only at h
  split at h
  · cases h
  · split at h <;> cases h

theorem openPath_eq_error {reason : ConnectionError}
    (h : tree.openPath planner path = .error reason) :
    reason.OfPlace := by
  unfold openPath at h
  split at h
  · cases h
    exact nofun
  · rcases bind_eq_error.mp h with htarget | ⟨target, _, hopen⟩
    · exact Target.ofPath_eq_error htarget
    · cases target with
      | own => cases hopen
      | file name =>
        rcases bind_eq_error.mp hopen with hfailed | ⟨_, _, hopened⟩
        · exact openDatabase_eq_error hfailed
        · cases hopened

/-- Opening a file makes a database without tables there if there is none. -/
theorem database?_openPath (h : tree.openPath planner path = .ok (tree', some place)) :
    tree'.database? =
      Function.update tree.database? place (some ((tree.database? place).getD (.empty planner))) := by
  obtain ⟨_, ⟨_, _, hnone⟩ | ⟨name, found, _, hopen, heq⟩⟩ := openPath_eq_ok.mp h
  · cases hnone
  cases heq
  obtain ⟨_, ⟨⟨db, hnode⟩, rfl⟩ | ⟨hnode, rfl⟩⟩ := openDatabase_eq_ok hopen
  · rw [database?_of_node hnode, Option.getD_some, ← database?_of_node hnode,
      Function.update_eq_self]
  · have hnone : tree.database? place = none := by
      rcases hnode with hnode | hnode <;> simp [database?, hnode]
    have hne : tree.node? place ≠ some .directory := by
      rcases hnode with hnode | hnode <;> simp [hnode]
    rw [database?_set_database hne, hnone, Option.getD_none]

end FileTree

/-- A table of the model without rows. -/
def Model.newTable (m : Model) : Table :=
  ⟨m.tableName, (m.fields.mapM columnSpec).toOption.getD [], [], 0⟩

namespace Database

/-- The database with a table for the model, which is a new one unless a table has its name. -/
def withTable (db : Database) (m : Model) : Database :=
  if (db.table? m.tableName).isSome then db else { db with tables := db.tables ++ [m.newTable] }

/-- The database with a table for each model, made one after another. -/
def withTables (db : Database) (models : List Model) : Database := models.foldl withTable db

variable {db : Database} {models : List Model}

theorem withTables_tables (db : Database) (models : List Model) :
    ∃ made, (db.withTables models).tables = db.tables ++ made := by
  induction models generalizing db with
  | nil => exact ⟨[], (List.append_nil _).symm⟩
  | cons m rest ih =>
    obtain ⟨made, hmade⟩ := ih (db.withTable m)
    rw [withTables, List.foldl_cons, ← withTables, hmade]
    unfold withTable
    split
    · exact ⟨made, rfl⟩
    · exact ⟨m.newTable :: made, List.append_assoc _ _ _⟩

/-- Nothing is made exactly if the tables of all models are there. -/
theorem withTables_eq_self :
    db.withTables models = db ↔ ∀ m ∈ models, (db.table? m.tableName).isSome := by
  induction models generalizing db with
  | nil => exact iff_of_true rfl (List.forall_mem_nil _)
  | cons m rest ih =>
    rw [withTables, List.foldl_cons, ← withTables, List.forall_mem_cons, withTable]
    split
    next htable => rw [ih, and_iff_right htable]
    next htable =>
      refine iff_of_false (fun heq => ?_) fun hall => htable hall.1
      obtain ⟨made, hmade⟩ := withTables_tables { db with tables := db.tables ++ [m.newTable] } rest
      have hlength := congrArg (·.tables.length) heq
      simp only [hmade, List.length_append, List.length_singleton] at hlength
      omega

end Database

namespace Session

variable {s s' s₁ : Session} {db db' : Database} {m : Model} {models : List Model} {e : StoreError}
  {location : Location}

/-- The table of a valid model is made as its new table. -/
theorem createTable_eq_withTable (hm : m.validate = .ok ()) (h : createTable m db = .ok () db') :
    db' = db.withTable m := by
  obtain ⟨_, _, ⟨hsome, rfl⟩ | ⟨hnone, _, specs, hs, rfl⟩⟩ := (createTable_eq_ok_iff hm).mp h
  · exact (if_pos hsome).symm
  · obtain ⟨_, hspecs, heq⟩ := bind_eq_ok.mp hs
    cases heq
    rw [Database.withTable, hnone, Model.newTable, hspecs]
    rfl

/-- A table that is refused leaves the database as it is, and the error names it. -/
theorem createTable_eq_error (hm : m.validate = .ok ()) (h : createTable m db = .error e db') :
    db' = db ∧ ∃ cause, e = .connection (.tableNotCreated m.tableName cause) := by
  obtain ⟨specs, _, hs⟩ := Model.createTable_of_valid hm
  rcases runBind_eq_error.mp h with hlift | ⟨_, db₁, hlift, hchange⟩
  · rw [hs] at hlift
    cases (runOfExcept_eq_error.mp hlift).1
  · obtain ⟨_, rfl⟩ := runOfExcept_eq_ok.mp hlift
    obtain ⟨cause, _, rfl, rfl⟩ := Action.change_eq_error.mp hchange
    exact ⟨rfl, cause, rfl⟩

/-- Where the making of tables stops, those of the models before are made. -/
theorem createTables_eq_error (hm : ∀ m ∈ models, m.validate = .ok ())
    (h : (models.forM createTable : Action Unit) db = .error e db') :
    ∃ before m after cause, models = before ++ m :: after ∧
      (before.forM createTable : Action Unit) db = .ok () db' ∧ db' = db.withTables before ∧
        createTable m db' = .error e db' ∧ e = .connection (.tableNotCreated m.tableName cause) := by
  induction models generalizing db with
  | nil => cases h
  | cons m rest ih =>
    rw [List.forall_mem_cons] at hm
    rcases runBind_eq_error.mp h with hfirst | ⟨⟨⟩, db₁, hfirst, hrest⟩
    · obtain ⟨rfl, cause, rfl⟩ := createTable_eq_error hm.1 hfirst
      exact ⟨[], m, rest, cause, rfl, rfl, rfl, hfirst, rfl⟩
    · obtain ⟨before, other, after, cause, rfl, hmade, rfl, hrefused, rfl⟩ := ih hm.2 hrest
      obtain rfl := createTable_eq_withTable hm.1 hfirst
      exact ⟨m :: before, other, after, cause, rfl, runBind_eq_ok.mpr ⟨(), _, hfirst, hmade⟩, rfl,
        hrefused, rfl⟩

/-- The connections are as they were, and so are the databases in files. Directories may have been
made. -/
structure Unchanged (s s' : Session) : Prop where
  connections : s'.connections = s.connections
  files : s'.files.database? = s.files.database?

theorem Unchanged.refl (s : Session) : s.Unchanged s := ⟨rfl, rfl⟩

theorem databaseAt?_file (s : Session) (place : Place) :
    s.databaseAt? (.file place) = s.files.database? place := rfl

theorem database?_of_file {place : Place} (h : s.connections = some (.ofFile s.planner place)) :
    s.database? = s.files.database? place := by
  rw [database?_of_master h, Connections.ofFile, databaseAt?_file]

theorem Unchanged.database (h : s.Unchanged s') : s'.database? = s.database? := by
  have hat (handle : Handle) : s'.databaseAt? handle = s.databaseAt? handle := by
    cases handle with
    | memory number => rw [databaseAt?, databaseAt?, h.connections]
    | file place => rw [databaseAt?_file, databaseAt?_file, h.files]
  rw [database?, database?, databaseOf?, databaseOf?, handle?, handle?, h.connections,
    funext hat]

/-- What an opening leaves behind that stopped when it had made the tables of the models `before`.
In memory they are all that is there; in a file they stand after the tables found in it. -/
def Halfway (s : Session) (before : List Model) (s' : Session) : Location → Prop
  | .memory =>
    s' = { s with connections := some (.ofMemory ((Database.empty s.planner).withTables before)) }
  | .file path =>
    (∃ place db, s'.connections = some (.ofFile s.planner place) ∧
      s'.files.LeadsTo path place (db.withTables before) ∧
        db = (s.files.database? place).getD (.empty s.planner) ∧
          s'.files.database? =
            Function.update s.files.database? place (some (db.withTables before))) ∨
    s'.files.DenotesOwn path ∧
      s'.connections = some (.ofOwn s.planner ((Database.empty s.planner).withTables before)) ∧
        s'.files.database? = s.files.database?

/-- An opening stopped at the table of a model: those of the models before it are made, and that one
is refused. -/
structure StoppedAt (s s' : Session) (before : List Model) (m : Model) : Prop where
  models : ∃ after, s.registry.models = before ++ m :: after
  halfway : ∃ location, Location.ofUri s.config.uri = .ok location ∧ s.Halfway before s' location
  refused : ∃ db, s'.database? = some db ∧
    (∀ other ∈ before, (db.table? other.tableName).isSome) ∧ ∀ db', createTable m db ≠ .ok () db'

theorem ofUri_eq_error {uri : String} {reason : ConnectionError}
    (h : Location.ofUri uri = .error reason) : reason.OfPlace := by
  rintro table fault rfl
  unfold Location.ofUri at h
  simp only at h
  split at h
  · split at h
    · cases h
    · split at h <;> cases h
  · cases h

/-- Connections that cannot be opened leave those that are open. -/
theorem connect_eq_error (h : connect location s = .error e s') :
    s.Unchanged s' ∧ ∃ reason, e = .connection reason ∧ reason.OfPlace := by
  unfold connect at h
  split at h
  · cases h
  · split at h
    · cases h
      exact ⟨.refl s, _, rfl, nofun⟩
    next made hmake =>
      split at h
      next cause hopen =>
        cases h
        exact ⟨⟨rfl, FileTree.database?_makeParent hmake⟩, _, rfl, FileTree.openPath_eq_error hopen⟩
      next files master hopen =>
        simp only [FileTree.reopen_of_open hmake hopen] at h
        cases h

/-- What the making of tables adds to what the connections have reached. -/
theorem halfway_of_connect (h : connect location s = .ok () s₁) : ∃ db, s₁.database? = some db ∧
    ∀ before, s.Halfway before (s₁.setDatabase (db.withTables before)) location := by
  cases location with
  | memory =>
    cases h
    exact ⟨.empty s.planner, rfl, fun before => setDatabase_of_memory rfl⟩
  | file path =>
    obtain ⟨made, hparent, ⟨files, place, hopen, rfl⟩ | ⟨hown, rfl⟩⟩ := connect_file_eq_ok h
    case inr =>
      refine ⟨.empty s.planner, database?_of_own rfl, fun before => ?_⟩
      rw [setDatabase_of_own rfl]
      exact .inr ⟨hown, rfl, FileTree.database?_makeParent hparent⟩
    obtain ⟨db, hleads⟩ := FileTree.leadsTo_of_open hparent hopen
    have hfiles := FileTree.database?_openPath hopen
    rw [FileTree.database?_makeParent hparent] at hfiles
    have hdb : files.database? place = some db := FileTree.database?_of_node hleads.node
    have hfound : db = (s.files.database? place).getD (.empty s.planner) := by
      rw [hfiles, Function.update_self] at hdb
      exact (Option.some.inj hdb).symm
    have hne : files.node? place ≠ some .directory := by
      rw [hleads.node]
      exact nofun
    refine ⟨db, (database?_of_file rfl).trans hdb, fun before => ?_⟩
    rw [setDatabase_of_file rfl]
    refine .inl ⟨place, db, rfl, hleads.set _, hfound, ?_⟩
    show (files.set place (.database (db.withTables before))).database? = _
    rw [FileTree.database?_set_database hne, hfiles, Function.update_idem]

/-- Why an opening fails: its place is not one of a database, the connections cannot be opened, or a
table is refused. -/
theorem init_eq_error (h : init s = .error e s') : ∃ cause, e = initializing cause ∧
    ((∃ fault, Location.ofUri s.config.uri = .error fault ∧ cause = .connection fault ∧ s' = s) ∨
      ∃ location, Location.ofUri s.config.uri = .ok location ∧
        (connect location s = .error cause s' ∨ ∃ s₁, connect location s = .ok () s₁ ∧
          run masterName (s.registry.models.forM createTable) s₁ = .error cause s')) := by
  unfold init at h
  simp only at h
  split at h
  · cases h
  next cause s₂ hattempt =>
    cases h
    refine ⟨cause, rfl, ?_⟩
    rcases runBind_eq_error.mp hattempt with hlift | ⟨location, s₀, hlift, hrest⟩
    · obtain ⟨hlocation, rfl⟩ := runOfExcept_eq_error.mp hlift
      obtain ⟨fault, hfault, rfl⟩ := mapError_eq_error.mp hlocation
      exact .inl ⟨fault, hfault, rfl, rfl⟩
    · obtain ⟨hlocation, rfl⟩ := runOfExcept_eq_ok.mp hlift
      refine .inr ⟨location, mapError_eq_ok.mp hlocation, ?_⟩
      rcases runBind_eq_error.mp hrest with hconnect | ⟨⟨⟩, s₁, hconnect, hrun⟩
      · exact .inl hconnect
      · exact .inr ⟨s₁, hconnect, hrun⟩

/-- When an opening that made some tables changed nothing by that: it was connected to the same
place, and the tables were there. -/
theorem Halfway.unchanged_iff {before : List Model} (h : s.Halfway before s' location)
    (hdb : s'.database? = some db) (htables : ∀ m ∈ before, (db.table? m.tableName).isSome) :
    s.Unchanged s' ↔ s'.connections = s.connections ∧
      ∃ found, s.database? = some found ∧ ∀ m ∈ before, (found.table? m.tableName).isSome := by
  constructor
  · intro hsame
    exact ⟨hsame.connections, db, hsame.database ▸ hdb, htables⟩
  · rintro ⟨hconnections, found, hfound, hthere⟩
    refine ⟨hconnections, ?_⟩
    cases location with
    | memory =>
      rw [h]
    | file path =>
      obtain ⟨place, db, hplace, hleads, rfl, hfiles⟩ | ⟨_, _, hfiles⟩ := h
      case inr => exact hfiles
      rw [database?_of_file (hconnections ▸ hplace)] at hfound
      rw [hfiles, hfound, Option.getD_some, Database.withTables_eq_self.mpr hthere, ← hfound,
        Function.update_eq_self]

/-- What an opening that fails leaves behind, in whatever state of a session. If it reached no
database, nothing has changed. If the table of a model was refused, the connections are open, and the
models before that one have their tables: nothing has changed only if the connections led there
already and the tables were there. -/
theorem failed_opening_leaves (h : s.Reachable) (hfail : init s = .error e s') :
    (s.Unchanged s' ∧ ∃ reason, e = .connection (.initializing reason) ∧ reason.OfPlace) ∨
      ∃ before m fault, e = .connection (.initializing (.tableNotCreated m.tableName fault)) ∧
        s.StoppedAt s' before m ∧
          (s.Unchanged s' ↔ s'.connections = s.connections ∧ ∃ db, s.database? = some db ∧
            ∀ other ∈ before, (db.table? other.tableName).isSome) := by
  obtain ⟨cause, rfl, ⟨reason, huri, rfl, rfl⟩ | ⟨location, huri, hrest⟩⟩ := init_eq_error hfail
  · exact .inl ⟨.refl s', reason, rfl, ofUri_eq_error huri⟩
  rcases hrest with hconnect | ⟨s₁, hconnect, hrun⟩
  · obtain ⟨hsame, reason, rfl, hreason⟩ := connect_eq_error hconnect
    exact .inl ⟨hsame, reason, rfl, hreason⟩
  · obtain ⟨db, hdb, hhalfway⟩ := halfway_of_connect hconnect
    rw [run_master hdb] at hrun
    split at hrun
    · cases hrun
    next cause db' hcreate =>
      cases hrun
      obtain ⟨before, m, after, fault, hmodels, hmade, rfl, hrefused, rfl⟩ :=
        createTables_eq_error h.registry_proper.valid hcreate
      have hdb' : (s₁.setDatabase (db.withTables before)).database? =
          some (db.withTables before) := setDatabase_database? hdb
      have htables := (createTables_keeps hmade).1
      have hstopped : s.StoppedAt (s₁.setDatabase (db.withTables before)) before m := by
        refine ⟨⟨after, hmodels⟩, ⟨location, huri, hhalfway before⟩, _, hdb', htables, ?_⟩
        intro db' hok
        rw [hrefused] at hok
        cases hok
      exact .inr ⟨before, m, fault, rfl, hstopped, (hhalfway before).unchanged_iff hdb' htables⟩

/-- A configuration with a model whose table can be made, and one with the columns `name` and `Name`
after it. -/
def halfConfig : DatabaseConfig := ⟨"sqlite://:memory:", "test",
  [⟨"Item", none, [.plain "name" .text]⟩,
    ⟨"Person", none, [.plain "name" .text, .plain "Name" .text]⟩]⟩

/-- A session with that configuration and no connections. -/
def halfSession : Session :=
  ⟨halfConfig, .of "test" halfConfig.models, .default, none, ⟨[]⟩, .default⟩

/-- The opening fails at the second of two tables. The session, which was closed, is open
afterwards, and the items are counted. -/
theorem opened_for_items : ∃ s', init halfSession = .error (.connection (.initializing
    (.tableNotCreated "person" (.duplicateColumn "Name")))) s' ∧
      ¬ halfSession.Unchanged s' ∧ s'.answer (.count "Item" none) = .ok (.count 0) := by
  have hreachable : halfSession.Reachable :=
    .opened (FileTree.proper_ofTexts []) (rfl : ofConfig halfConfig .default _ = .ok _)
  obtain ⟨s', hfail, hanswer⟩ : ∃ s', init halfSession = .error (.connection (.initializing
    (.tableNotCreated "person" (.duplicateColumn "Name")))) s' ∧
      s'.answer (.count "Item" none) = .ok (.count 0) := ⟨_, rfl, rfl⟩
  refine ⟨s', hfail, ?_, hanswer⟩
  rcases failed_opening_leaves hreachable hfail with ⟨_, reason, heq, hreason⟩ |
    ⟨before, m, fault, _, _, hiff⟩
  · cases heq
    exact absurd rfl (hreason _ _)
  · rw [hiff]
    rintro ⟨_, db, hdb, _⟩
    cases hdb

end Session

end RecordStore
