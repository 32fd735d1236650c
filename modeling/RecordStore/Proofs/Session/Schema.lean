import RecordStore.Proofs.Session.Agreement

/-!
# The schema of an application

When the tables of an application can be made. The registry refuses two fields or two tables of one
name, but compares the names with regard to case, and it knows no limit of the number of columns. So
there are applications that it accepts and whose tables cannot be made, and such in which two models
share a table. `Session.CanBeMade` says exactly which applications can be opened on a database in
memory.
-/

namespace RecordStore

namespace Database

variable {db db' : Database}

/-- When a table is made, and what for. -/
theorem createTable_eq_ok_iff {s : CreateTable} : db.createTable s = .ok db' ↔
    isReservedName s.table = false ∧ (∀ spec ∈ s.columns, Writable spec.default) ∧
      ((db.table? s.table).isSome ∧ db' = db ∨ db.table? s.table = none ∧
        1 + s.columns.length ≤ columnLimit ∧
          (∀ spec ∈ s.columns, sameName "_id" spec.name = false) ∧
            (s.columns.Pairwise fun a b => sameName a.name b.name = false) ∧
              db' = { db with tables := db.tables ++ [⟨s.table, s.columns, [], 0⟩] }) := by
  unfold createTable
  split
  next hreserved => simp [hreserved]
  next hreserved =>
    have hname : isReservedName s.table = false := by simpa using hreserved
    cases htable : db.table? s.table with
    | some t =>
      simp only [hname, bind_eq_ok, Except.ok.injEq, true_and]
      constructor
      · rintro ⟨⟨⟩, hdefaults, rfl⟩
        exact ⟨fun spec hspec => checkDefault_eq_ok.mp (forM_eq_ok.mp hdefaults spec hspec),
          .inl ⟨rfl, rfl⟩⟩
      · rintro ⟨hdefaults, ⟨_, rfl⟩ | ⟨hnone, _⟩⟩
        · exact ⟨(), forM_eq_ok.mpr fun spec hspec => checkDefault_eq_ok.mpr (hdefaults spec hspec),
            rfl⟩
        · cases hnone
    | none =>
      simp only [hname, bind_eq_ok, Except.ok.injEq, true_and]
      have hcheck : checkColumns s ["_id"] s.columns = .ok () ↔ _ := checkColumns_eq_ok (by decide)
      constructor
      · rintro ⟨⟨⟩, hcolumns, rfl⟩
        obtain ⟨hdefaults, hsize, hid, hdistinct⟩ := hcheck.mp hcolumns
        exact ⟨hdefaults, .inr ⟨hsize, fun spec hspec =>
          hid spec hspec "_id" List.mem_cons_self, hdistinct, rfl⟩⟩
      · rintro ⟨hdefaults, ⟨hsome, _⟩ | ⟨hsize, hid, hdistinct, rfl⟩⟩
        · cases hsome
        · refine ⟨(), hcheck.mpr ⟨hdefaults, hsize, fun spec hspec name hmem => ?_, hdistinct⟩, rfl⟩
          rw [List.mem_singleton.mp hmem]
          exact hid spec hspec

end Database

namespace Model

variable {m : Model} {specs : List ColumnSpec}

/-- The names of the columns of a model. -/
def columnNames (m : Model) : List String := m.columns.map Column.name

/-- The columns of a model can be those of a table: their names differ without regard to case, and
they are not too many. -/
structure FitsTable (m : Model) : Prop where
  distinct : m.columnNames.Pairwise fun a b => sameName a b = false
  size : m.columnNames.length ≤ columnLimit

/-- The table of a model can be made after those of the models before it, or is shared with one of
them. -/
structure Placeable (m : Model) (earlier : List Model) : Prop where
  name : Database.isReservedName m.tableName = false
  defaults : ∀ f ∈ m.fields, ∀ text, f.encodeDefault = .ok (some (.text text)) →
    '\x00' ∉ text.toList
  columns : (∃ other ∈ earlier, sameName other.tableName m.tableName = true) ∨ m.FitsTable

/-- What a new table of the model says about itself: its name and the names of its columns. -/
def heading (m : Model) : String × List String := (m.tableName, m.columnNames)

theorem columnNames_eq (h : m.fields.mapM columnSpec = .ok specs) :
    m.columnNames = primaryKey :: specs.map (·.name) := by
  have hnames : specs.map (·.name) = m.fields.map (·.name) :=
    map_of_mapM h fun f spec hspec => (columnSpec_eq_ok hspec).1
  rw [hnames, columnNames, columns, List.map_cons, List.map_map]
  rfl

theorem fitsTable_iff (h : m.fields.mapM columnSpec = .ok specs) : m.FitsTable ↔
    1 + specs.length ≤ columnLimit ∧ (∀ spec ∈ specs, sameName "_id" spec.name = false) ∧
      specs.Pairwise fun a b => sameName a.name b.name = false := by
  have hnames : (m.columnNames.Pairwise fun a b => sameName a b = false) ↔
      (∀ spec ∈ specs, sameName "_id" spec.name = false) ∧
        specs.Pairwise fun a b => sameName a.name b.name = false := by
    rw [columnNames_eq h, List.pairwise_cons, List.pairwise_map, List.forall_mem_map]
    rfl
  have hlength : m.columnNames.length = 1 + specs.length := by
    rw [columnNames_eq h, List.length_cons, List.length_map, Nat.add_comm]
  rw [← hnames, ← hlength]
  exact ⟨fun hfits => ⟨hfits.size, hfits.distinct⟩, fun ⟨hsize, hdistinct⟩ => ⟨hdistinct, hsize⟩⟩

theorem writable_iff (h : m.fields.mapM columnSpec = .ok specs) :
    (∀ spec ∈ specs, Database.Writable spec.default) ↔ ∀ f ∈ m.fields, ∀ text,
      f.encodeDefault = .ok (some (.text text)) → '\x00' ∉ text.toList := by
  have hdefault {f : Field} {spec : ColumnSpec} (hspec : columnSpec f = .ok spec) :
      f.encodeDefault = .ok spec.default := by
    simp only [columnSpec, bind_eq_ok, Except.ok.injEq] at hspec
    obtain ⟨_, hdefault, rfl⟩ := hspec
    exact hdefault
  constructor
  · intro hspecs f hf text htext
    obtain ⟨spec, hmem, hspec⟩ := exists_of_mapM h hf
    exact hspecs spec hmem text (Except.ok.inj ((hdefault hspec).symm.trans htext))
  · intro hfields spec hmem text htext
    obtain ⟨f, hf, hspec⟩ := mem_of_mapM h hmem
    exact hfields f hf text (htext ▸ hdefault hspec)

end Model

/-- What a table says about itself: its name and the names of its columns. -/
def Table.heading (t : Table) : String × List String :=
  (t.name, primaryKey :: t.columns.map (·.name))

namespace Session

variable {db db' : Database} {m : Model} {models earlier : List Model}

/-- What the making of the table of a valid model does, and when it succeeds. -/
theorem createTable_eq_ok_iff (hm : m.validate = .ok ()) : createTable m db = .ok () db' ↔
    Database.isReservedName m.tableName = false ∧ (∀ f ∈ m.fields, ∀ text,
      f.encodeDefault = .ok (some (.text text)) → '\x00' ∉ text.toList) ∧
      ((db.table? m.tableName).isSome ∧ db' = db ∨ db.table? m.tableName = none ∧ m.FitsTable ∧
        ∃ specs, m.createTable = .ok ⟨m.tableName, specs⟩ ∧
          db' = { db with tables := db.tables ++ [⟨m.tableName, specs, [], 0⟩] }) := by
  obtain ⟨specs, hspecs, hs⟩ := Model.createTable_of_valid hm
  have hstep : createTable m db = .ok () db' ↔
      db.createTable ⟨m.tableName, specs⟩ = .ok db' := by
    have hlift : m.createTable.mapError StoreError.validation = .ok ⟨m.tableName, specs⟩ :=
      mapError_eq_ok.mpr hs
    constructor
    · intro h
      obtain ⟨s, db₁, hread, hchange⟩ := runBind_eq_ok.mp h
      obtain ⟨hs', rfl⟩ := runOfExcept_eq_ok.mp hread
      cases hlift.symm.trans hs'
      obtain ⟨_, hcreate, heq⟩ := map_eq_ok.mp (Action.change_eq_ok.mp hchange)
      cases heq
      exact hcreate
    · intro hcreate
      exact runBind_eq_ok.mpr ⟨_, db, runOfExcept_eq_ok.mpr ⟨hlift, rfl⟩,
        Action.change_eq_ok.mpr (map_eq_ok.mpr ⟨db', hcreate, rfl⟩)⟩
  rw [hstep, Database.createTable_eq_ok_iff, Model.fitsTable_iff hspecs, Model.writable_iff hspecs, hs]
  constructor
  · rintro ⟨hname, hdefaults, hsome | ⟨hnone, hsize, hid, hdistinct, rfl⟩⟩
    · exact ⟨hname, hdefaults, .inl hsome⟩
    · exact ⟨hname, hdefaults, .inr ⟨hnone, ⟨hsize, hid, hdistinct⟩, specs, rfl, rfl⟩⟩
  · rintro ⟨hname, hdefaults, hsome | ⟨hnone, ⟨hsize, hid, hdistinct⟩, _, heq, rfl⟩⟩
    · exact ⟨hname, hdefaults, .inl hsome⟩
    · cases heq
      exact ⟨hname, hdefaults, .inr ⟨hnone, hsize, hid, hdistinct, rfl⟩⟩

/-- The tables of a database are those of the given models. -/
def TablesOf (models : List Model) (db : Database) : Prop :=
  ∀ name, (db.table? name).isSome ↔ ∃ m ∈ models, sameName m.tableName name = true

theorem tablesOf_empty (planner : Planner) : TablesOf [] (.empty planner) := fun _ =>
  ⟨fun h => Bool.noConfusion h, fun ⟨_, hm, _⟩ => absurd hm List.not_mem_nil⟩

theorem createTable_tablesOf (hm : m.validate = .ok ()) (hdb : TablesOf earlier db)
    (h : createTable m db = .ok () db') : TablesOf (earlier ++ [m]) db' := by
  intro name
  obtain ⟨_, _, hcase⟩ := (createTable_eq_ok_iff hm).mp h
  simp only [List.mem_append, List.mem_singleton, or_and_right, exists_or, exists_eq_left]
  rw [← hdb name]
  rcases hcase with ⟨hsome, rfl⟩ | ⟨_, _, specs, _, rfl⟩
  · refine ⟨.inl, ?_⟩
    rintro (hname | hname)
    · exact hname
    · rwa [← Database.table?_congr hname]
  · simp only [Database.table?, List.find?_append, Option.isSome_or, Bool.or_eq_true]
    simp

theorem isOk_createTable_iff (hm : m.validate = .ok ()) (hdb : TablesOf earlier db) :
    (∃ db', createTable m db = .ok () db') ↔ m.Placeable earlier := by
  have hshared := hdb m.tableName
  constructor
  · rintro ⟨db', h⟩
    obtain ⟨hname, hdefaults, hcase⟩ := (createTable_eq_ok_iff hm).mp h
    refine ⟨hname, hdefaults, ?_⟩
    rcases hcase with ⟨hsome, _⟩ | ⟨_, hfits, _⟩
    · exact .inl (hshared.mp hsome)
    · exact .inr hfits
  · rintro ⟨hname, hdefaults, hcolumns⟩
    obtain ⟨specs, _, hs⟩ := Model.createTable_of_valid hm
    cases htable : db.table? m.tableName with
    | some t =>
      exact ⟨db, (createTable_eq_ok_iff hm).mpr ⟨hname, hdefaults, .inl ⟨by rw [htable]; rfl, rfl⟩⟩⟩
    | none =>
      rw [htable] at hshared
      have hfits : m.FitsTable := hcolumns.resolve_left fun hother =>
        Bool.false_ne_true (hshared.mpr hother)
      exact ⟨_, (createTable_eq_ok_iff hm).mpr
        ⟨hname, hdefaults, .inr ⟨htable, hfits, specs, hs, rfl⟩⟩⟩

/-- All tables can be made exactly if each can after those before it. -/
theorem isOk_createTables_iff (hm : ∀ m ∈ models, m.validate = .ok ()) (hdb : TablesOf earlier db) :
    (∃ db', (models.forM createTable : Action Unit) db = .ok () db') ↔
      ∀ before m after, models = before ++ m :: after → m.Placeable (earlier ++ before) := by
  induction models generalizing db earlier with
  | nil =>
    refine iff_of_true ⟨db, rfl⟩ fun before m after heq => ?_
    simp at heq
  | cons m rest ih =>
    rw [List.forall_mem_cons] at hm
    refine Iff.trans ?_ (forall_split_cons (P := fun before (m : Model) =>
      m.Placeable (earlier ++ before))).symm
    rw [List.append_nil, ← isOk_createTable_iff hm.1 hdb]
    have hrest {db₁ : Database} (h : createTable m db = .ok () db₁) :
        (∃ db', (rest.forM createTable : Action Unit) db₁ = .ok () db') ↔
          ∀ before m' after, rest = before ++ m' :: after →
            m'.Placeable (earlier ++ m :: before) := by
      rw [ih hm.2 (createTable_tablesOf hm.1 hdb h)]
      simp only [List.append_assoc, List.singleton_append]
    constructor
    · rintro ⟨db', h⟩
      obtain ⟨⟨⟩, db₁, hfirst, hmore⟩ := runBind_eq_ok.mp h
      exact ⟨⟨db₁, hfirst⟩, (hrest hfirst).mp ⟨db', hmore⟩⟩
    · rintro ⟨⟨db₁, hfirst⟩, hmore⟩
      obtain ⟨db', hmore⟩ := (hrest hfirst).mpr hmore
      exact ⟨db', runBind_eq_ok.mpr ⟨(), db₁, hfirst, hmore⟩⟩

/-- Where no two models share a table, a table is made for each model, in order. -/
theorem headings_createTables (hm : ∀ m ∈ models, m.validate = .ok ()) (hd : DistinctTables models)
    (hnew : ∀ m ∈ models, db.table? m.tableName = none)
    (h : (models.forM createTable : Action Unit) db = .ok () db') :
    db'.tables.map Table.heading = db.tables.map Table.heading ++ models.map Model.heading := by
  induction models generalizing db with
  | nil =>
    cases h
    simp
  | cons m rest ih =>
    rw [List.forall_mem_cons] at hm hnew
    obtain ⟨hapart, hdrest⟩ := List.pairwise_cons.mp hd
    obtain ⟨⟨⟩, db₁, hfirst, hrest⟩ := runBind_eq_ok.mp h
    obtain ⟨_, _, ⟨hsome, _⟩ | ⟨_, _, specs, hs, rfl⟩⟩ := (createTable_eq_ok_iff hm.1).mp hfirst
    · rw [hnew.1] at hsome
      cases hsome
    · have hspecs : m.fields.mapM Model.columnSpec = .ok specs := by
        obtain ⟨_, hspecs, heq⟩ := bind_eq_ok.mp hs
        cases heq
        exact hspecs
      have hheading : Table.heading ⟨m.tableName, specs, [], 0⟩ = m.heading := by
        rw [Model.heading, Model.columnNames_eq hspecs]
        rfl
      rw [ih hm.2 hdrest (fun other hother => ?_) hrest]
      · simp only [List.map_append, List.map_cons, List.map_nil, hheading, List.append_assoc,
          List.singleton_append]
      · have hfound := hnew.2 other hother
        simp only [Database.table?] at hfound ⊢
        rw [List.find?_append, hfound, Option.none_or]
        exact List.find?_cons_of_neg (by simpa using hapart other hother)

/-- The tables of an application can be made one after another in a database without tables. -/
def CanBeMade (models : List Model) : Prop :=
  ∀ earlier m later, models = earlier ++ m :: later → m.Placeable earlier

variable {s s' : Session}

theorem init_memory_eq_ok_iff (huri : Location.ofUri s.config.uri = .ok .memory) :
    init s = .ok () s' ↔ ∃ db,
      (s.registry.models.forM createTable : Action Unit) (.empty s.planner) = .ok () db ∧
        s' = { s with connections := some (.ofMemory db) } := by
  have hconnect : connect .memory s =
      .ok () { s with connections := some (.ofMemory (.empty s.planner)) } := rfl
  constructor
  · intro h
    obtain ⟨location, s₁, db, db', hlocation, hconnect', hdb, htables, rfl⟩ := init_eq_ok h
    cases huri.symm.trans hlocation
    cases hconnect.symm.trans hconnect'
    cases hdb
    exact ⟨db', htables, by rw [setDatabase_of_memory rfl]⟩
  · rintro ⟨db, htables, rfl⟩
    have hinit := init_of_steps huri hconnect rfl htables
    rwa [setDatabase_of_memory rfl] at hinit

/-- Without a filter all rows of the table of a model are counted. -/
theorem Views.answer_count_all {t : Table} (h : s.Views m .read db t) :
    s.answer (.count m.name none) = .ok (.count t.rows.length) := by
  have hnone : m.conditionFor none = .ok none := rfl
  rw [h.answer_count hnone .nil, t.matching_none]

/-- An application that the registry accepts can be opened on a new database in memory exactly if the
table of every model can be made or is shared with a model before it. Then every model has no
records, and the tables are exactly one for each model, with its columns, if and only if the names of
the tables differ without regard to case. -/
theorem opens_in_memory_iff {config : DatabaseConfig} {router : Router} {files : FileTree}
    {planner : Planner} (h : ofConfig config router files planner = .ok s)
    (huri : Location.ofUri config.uri = .ok .memory) :
    ((∃ s', init s = .ok () s') ↔ CanBeMade config.models) ∧
    ∀ s', init s = .ok () s' →
      (router.Connected → ∀ m ∈ config.models,
        s'.answer (.count m.name none) = .ok (.count 0)) ∧
      ∃ db, s'.database? = some db ∧
        (db.tables.map Table.heading = config.models.map Model.heading ↔
          DistinctTables config.models) := by
  obtain ⟨registry, hregistry, heq⟩ := bind_eq_ok.mp h
  cases heq
  obtain ⟨hmodels, hproper⟩ := Registry.ofModels_eq_ok (mapError_eq_ok.mp hregistry)
  have hvalid : ∀ m ∈ config.models, m.validate = .ok () := hmodels ▸ hproper.valid
  simp only [init_memory_eq_ok_iff (s := ⟨config, registry, router, none, files, planner⟩) huri,
    hmodels]
  constructor
  · refine Iff.trans ?_ (isOk_createTables_iff hvalid (tablesOf_empty planner))
    exact ⟨fun ⟨_, db, hdb, _⟩ => ⟨db, hdb⟩, fun ⟨db, hdb⟩ => ⟨_, db, hdb, rfl⟩⟩
  · rintro _ ⟨db, hdb, rfl⟩
    have hempty : NewFor config.models (.empty planner) := fun t ht => absurd ht List.not_mem_nil
    have hnew := createTables_newFor (fun _ hm => hm) hdb hempty
    refine ⟨fun hr m hm => ?_, db, rfl, fun hheadings => ?_, fun hd => ?_⟩
    · obtain ⟨t, ht⟩ := Option.isSome_iff_exists.mp ((createTables_keeps hdb).1 m hm)
      have hviews :
          Session.Views ⟨config, registry, router, some (.ofMemory db), files, planner⟩ m .read db t :=
        ⟨hproper.get_of_mem (hmodels ▸ hm), databaseOf?_of_memory rfl (hr m).1, ht⟩
      rw [hviews.answer_count_all, (hnew t (Database.table?_mem ht)).1]
      rfl
    · have hnames := createTables_distinctNames config.models (Database.empty_distinctNames planner)
      rw [hdb] at hnames
      have hpairs : (db.tables.map Table.heading).Pairwise fun a b => sameName a.1 b.1 = false :=
        List.pairwise_map.mpr hnames
      rw [hheadings] at hpairs
      exact List.pairwise_map.mp hpairs
    · exact headings_createTables hvalid hd (fun _ _ => rfl) hdb

/-- A configuration whose model has the columns `name` and `Name`. -/
def columnConfig : DatabaseConfig := ⟨"sqlite://:memory:", "test",
  [⟨"Person", none, [.plain "name" .text, .plain "Name" .text]⟩]⟩

/-- A session with that configuration and no connections. -/
def columnSession : Session :=
  ⟨columnConfig, .of "test" columnConfig.models, .default, none, ⟨[]⟩, .default⟩

/-- The registry accepts two columns whose names differ only in case, but their table cannot be made.
Without the one of them it can, and holds no records. -/
theorem spellings_of_a_column :
    ofConfig columnConfig .default ⟨[]⟩ = .ok columnSession ∧
    (¬ ∃ s', init columnSession = .ok () s') ∧
    (stateOf (init uniqueSession)).answer (.count "Person" none) = .ok (.count 0) := by
  have haccepted : ofConfig columnConfig .default ⟨[]⟩ = .ok columnSession := rfl
  refine ⟨haccepted, fun hopens => ?_, ?_⟩
  · have hmade := (opens_in_memory_iff haccepted rfl).1.mp hopens [] _ [] rfl
    obtain ⟨_, hother, _⟩ | hfits := hmade.columns
    · exact absurd hother List.not_mem_nil
    · exact absurd hfits.distinct (by decide)
  · have hunique : ofConfig uniqueConfig .default ⟨[]⟩ = .ok uniqueSession := rfl
    exact ((opens_in_memory_iff hunique rfl).2 _ rfl).1 Router.connected_default _ List.mem_cons_self

end Session

end RecordStore
