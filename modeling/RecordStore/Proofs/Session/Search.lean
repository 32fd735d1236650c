import RecordStore.Proofs.Session.Lookup

/-!
# Searching for one record

Once its connections were opened, a session has a table for every model at all times, even if two
models share one because its name is spelled in two ways. A search for one record by the value of a
column reads no more than two rows, by a condition of its own, where a count reads all that a filter
admits. They mean the same rows, so that the search tells none, one and several apart as the count
does.
-/

namespace RecordStore

/-- Every model has a table. -/
def Database.HasTables (models : List Model) (db : Database) : Prop :=
  ∀ m ∈ models, (db.table? m.tableName).isSome

theorem Operation.covers_tables (models : List Model) (m : Model) (op : Operation) :
    op.Covers (fun db db' => db.HasTables models → db'.HasTables models) m where
  refl _ h := h
  trans _ _ _ hab hbc h := hbc (hab h)
  insert _ _ _ hc _ _ _ h hdb other hother :=
    (Model.WritesAll.insert hc _ _ _ h).table?_isSome (hdb other hother)
  update _ _ _ hc _ _ hs _ _ _ h hdb other hother :=
    (Model.WritesAll.update hc hs _ _ _ h).table?_isSome (hdb other hother)
  delete _ _ _ hs _ _ _ h hdb other hother :=
    (Model.WritesAll.delete hs _ _ _ h).table?_isSome (hdb other hother)

namespace Session

variable {s s' : Session} {m : Model} {column : Column} {db : Database} {t : Table}

/-! ## Tables at all times -/

/-- What a session keeps from the time when its connections were opened: wherever its data are, every
model has a table there. In memory the tables can be made anew. -/
structure Equipped (s : Session) : Prop where
  reachable : s.Reachable
  created : (∀ path, Location.ofUri s.config.uri = .ok (.file path) → Target.ofPath path = .ok .own) →
    ∃ db, (s.registry.models.forM createTable : Action Unit) (.empty s.planner) = .ok () db
  located : ∃ location, Location.ofUri s.config.uri = .ok location ∧
    s.Located (·.HasTables s.registry.models) location

/-- The opening makes the tables that are not there. -/
theorem Equipped.opened (h : s.Reachable) (hinit : init s = .ok () s') : s'.Equipped := by
  obtain ⟨hsetup, hreachable⟩ := opened_of_init hinit
  obtain ⟨location, s₁, db, db', huri, hconnect, hdb, htables, rfl⟩ := init_eq_ok hinit
  have hlocated : (s₁.setDatabase db').Located (·.HasTables s.registry.models) location :=
    located_of_connect hconnect (createTables_keeps htables).1
  refine ⟨hreachable h, fun hmemory => ?_, location, hsetup.config ▸ huri,
    hsetup.registry ▸ hlocated⟩
  rw [hsetup.config, huri] at hmemory
  rw [hsetup.registry]
  cases location with
  | memory =>
    cases hconnect
    cases hdb
    exact ⟨db', htables⟩
  | file path =>
    obtain ⟨_, hmake, ⟨_, _, hopen, _⟩ | ⟨hown, rfl⟩⟩ := connect_file_eq_ok hconnect
    · obtain ⟨_, hleads⟩ := FileTree.leadsTo_of_open hmake hopen
      obtain ⟨_, hfile, _⟩ := hleads.follow
      cases hfile.symm.trans (hmemory path rfl)
    · cases hdb
      exact ⟨db', htables⟩

theorem Equipped.after (h : s.Equipped) (event : Event) : (s.after event).Equipped := by
  have hsetup := sameSetup_after s event
  obtain ⟨location, huri, hl⟩ := h.located
  have hkeeps : event.Keeps (·.HasTables s.registry.models) s.registry.models := by
    cases event with
    | init | close => trivial
    | operation op => exact fun m _ _ => Operation.covers_tables _ m op
    | command c => exact fun _ op _ m _ _ => Operation.covers_tables _ m op
  have hnew (hmemory : ∀ path, location = .file path → Target.ofPath path = .ok .own) : ∃ db,
      (s.registry.models.forM createTable : Action Unit) (.empty s.planner) = .ok () db ∧
        db.HasTables s.registry.models := by
    obtain ⟨db, hcreated⟩ := h.created fun path hpath =>
      hmemory path (Except.ok.inj (huri.symm.trans hpath))
    exact ⟨db, hcreated, (createTables_keeps hcreated).1⟩
  have hlocated := hl.after h.reachable huri hnew (fun _ htables => htables) hkeeps
  refine ⟨h.reachable.after event, ?_, location, hsetup.config ▸ huri, hsetup.registry ▸ hlocated⟩
  rw [hsetup.registry, hsetup.planner, hsetup.config]
  exact h.created

theorem Equipped.afterAll (h : s.Equipped) (events : List Event) : (s.afterAll events).Equipped := by
  induction events generalizing s with
  | nil => exact h
  | cons event rest ih => exact ih (h.after event)

/-- Where a connection reaches the database of the first one, every model has a table. Any other
database has none. -/
theorem Equipped.database_cases (h : s.Equipped) (hopen : s.isClosed = false) {name : String}
    (hname : Known name) : ∃ db, s.databaseOf? name = some db ∧
      (s.database? = some db ∧ db.HasTables s.registry.models ∨
        s.database? ≠ some db ∧ db = .empty s.planner) := by
  obtain ⟨location, _, hl⟩ := h.located
  obtain ⟨db, hdb⟩ := hl.databaseOf_of_open hopen hname
  refine ⟨db, hdb, ?_⟩
  by_cases hfirst : s.database? = some db
  · exact .inl ⟨hfirst, hl.holds hfirst⟩
  · obtain ⟨handle, hleads⟩ := databaseOf?_eq_some.mp hdb
    rcases hl.of_leads hleads with ⟨heq, _⟩ | ⟨hempty, _⟩
    · exact absurd heq hfirst
    · exact .inr ⟨hfirst, hempty⟩

/-! ## None, one and several -/

/-- If `n` records have a value in a column, the search for one record finds none, the one that is
listed, or several. -/
structure TellsApart (s : Session) (m : Model) (column : Column) (value : Json) (n : Nat) :
    Prop where
  count : s.answer (.count m.name (some (.object [(column.name, .object [("$eq", value)])]))) =
    .ok (.count n)
  notFound : n = 0 → s.answer (.find m.name column.name value) = .error .recordNotFound
  found : n = 1 → ∃ record, s.answer (.find m.name column.name value) = .ok (.record record) ∧
    s.answer (.list m.name
      ⟨some (.object [(column.name, .object [("$eq", value)])]), none, none, none⟩) =
        .ok (.records [record])
  several : 2 ≤ n → s.answer (.find m.name column.name value) = .error .multipleRecordsFound

theorem Views.tells_apart (h : s.Views m .read db t) (hm : m.Narrow) (hvalid : m.validate = .ok ())
    (hcolumn : column ∈ m.columns) (value : Json) : ∃ n, s.TellsApart m column value n := by
  obtain ⟨condition, hcondition, hfilter⟩ := Model.conditions_equal hvalid hcolumn value
  have hfits := Model.fits_equal hm hcondition none
  have hcount := h.answer_count hfilter hfits.text.of_append_left
  have hlist := h.answer_list hfilter hfits
  have hfind := h.answer_find hm hcondition
  rw [← (db.planner.perm t condition []).length_eq, ← List.length_map (m.recordIn t)] at hcount
  refine ⟨_, hcount, fun hnone => ?_, fun hone => ?_, fun hseveral => ?_⟩
  · rw [hfind, List.eq_nil_of_length_eq_zero hnone]
    rfl
  · obtain ⟨record, hrecord⟩ := List.length_eq_one_iff.mp hone
    rw [hrecord] at hlist hfind
    exact ⟨record, hfind, hlist⟩
  · rw [hfind]
    match (db.planner.visit t condition []).map (m.recordIn t), hseveral with
    | first :: second :: rest, _ => rfl

/-- Where there is no table, neither the search nor the count finds one. -/
structure FindsNoTable (s : Session) (m : Model) (column : Column) (value : Json) : Prop where
  count : s.answer (.count m.name (some (.object [(column.name, .object [("$eq", value)])]))) =
    .error (.operation (.failed .countingRecords (.noSuchTable m.tableName)))
  find : s.answer (.find m.name column.name value) =
    .error (.operation (.failed .fetchingRecord (.noSuchTable m.tableName)))

theorem findsNoTable {planner : Planner} (hget : s.registry.get m.name = .ok m)
    (hdb : s.databaseOf? (s.connectionOf m .read) = some (.empty planner)) (hm : m.Narrow)
    (hvalid : m.validate = .ok ()) (hcolumn : column ∈ m.columns) (value : Json) :
    s.FindsNoTable m column value := by
  obtain ⟨condition, hcondition, hfilter⟩ := Model.conditions_equal hvalid hcolumn value
  have hfits (window : Option RowWindow) := Model.fits_equal hm hcondition window
  constructor
  · have hplan := m.planOn_count m.name (some (.object [(column.name, .object [("$eq", value)])]))
    rw [hfilter, map_ok, mapError_ok] at hplan
    have hcount : (Database.empty planner).count ⟨m.tableName, condition⟩ =
        .error (.noSuchTable m.tableName) :=
      Database.count_of_missing rfl (hfits none).text.of_append_left
    exact answer_of_failure hget hdb rfl hplan
      (runMap_eq_error.mpr (Action.read_eq_error.mpr ⟨_, hcount, rfl, rfl⟩))
  · have hselect : (Database.empty planner).select _ = .error (.noSuchTable m.tableName) :=
      Database.select_of_missing rfl (hfits (some Model.searchWindow.toRows)).text
    exact answer_of_failure hget hdb rfl (Model.planOn_find m.name hcondition)
      (runBind_eq_error.mpr (.inl (runBind_eq_error.mpr (.inl
        (Action.read_eq_error.mpr ⟨_, hselect, rfl, rfl⟩)))))

/-- A closed session of games that gives each connection a database in memory of its own. -/
def apartClosed : Session :=
  { gameClosed with config := { gameConfig with uri := "sqlite://file::memory:" } }

end Session

end RecordStore
