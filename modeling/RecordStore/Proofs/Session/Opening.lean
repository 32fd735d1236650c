import RecordStore.Proofs.Session.History
import RecordStore.Proofs.Model.Registration

/-!
# Opening a session

What a configuration determines: its models are found by their names, in whatever state of a session
that was opened from it. Opening the connections on a database without tables gives every model a
table, made for the first model whose table has that name.
-/

namespace RecordStore

namespace Session

variable {s s' : Session} {db db' : Database}

/-! ## What no event changes -/

/-- Two sessions have the same configuration, models, router and planner. -/
structure SameSetup (s s' : Session) : Prop where
  config : s'.config = s.config
  registry : s'.registry = s.registry
  router : s'.router = s.router
  planner : s'.planner = s.planner

theorem SameSetup.refl (s : Session) : s.SameSetup s := ⟨rfl, rfl, rfl, rfl⟩

theorem SameSetup.trans {s'' : Session} (h : s.SameSetup s') (h' : s'.SameSetup s'') :
    s.SameSetup s'' :=
  ⟨h'.config.trans h.config, h'.registry.trans h.registry, h'.router.trans h.router,
    h'.planner.trans h.planner⟩

theorem sameSetup_setDatabaseAt (s : Session) (db : Database) (handle : Handle) :
    s.SameSetup (s.setDatabaseAt db handle) := by
  cases handle <;> exact ⟨rfl, rfl, rfl, rfl⟩

theorem sameSetup_setDatabase (s : Session) (db : Database) : s.SameSetup (s.setDatabase db) := by
  unfold setDatabase
  split
  · exact .refl s
  · exact sameSetup_setDatabaseAt ..

theorem sameSetup_run {α : Type} (connection : String) (action : Action α) (s : Session) :
    s.SameSetup (stateOf (run connection action s)) := by
  cases hrun : run connection action s with
  | ok v s' =>
    obtain ⟨handle, db, db', _, _, rfl⟩ := run_eq_ok hrun
    exact sameSetup_setDatabaseAt s db' handle
  | error e s' =>
    rcases run_eq_error hrun with ⟨_, rfl⟩ | ⟨handle, db, db', _, _, rfl⟩
    · exact .refl _
    · exact sameSetup_setDatabaseAt s db' handle

theorem sameSetup_perform (op : Operation) (s : Session) :
    s.SameSetup (stateOf (perform op s)) := by
  cases hplan : op.plan s.registry with
  | error e =>
    rw [perform_of_fault hplan]
    exact .refl s
  | ok found =>
    rw [perform_of_plan hplan]
    exact sameSetup_run _ _ s

theorem sameSetup_connect (location : Location) (s : Session) :
    s.SameSetup (stateOf (connect location s)) := by
  unfold connect
  split
  · exact ⟨rfl, rfl, rfl, rfl⟩
  · split
    · exact .refl s
    · split
      · exact ⟨rfl, rfl, rfl, rfl⟩
      · split <;> exact ⟨rfl, rfl, rfl, rfl⟩

theorem sameSetup_init (s : Session) : s.SameSetup (stateOf (init s)) := by
  rw [stateOf_init]
  refine stateOf_bind ?_ fun location s₁ hs₁ => stateOf_bind ?_ fun _ s₂ hs₂ => ?_
  · rw [stateOf_ofExcept]
    exact .refl s
  · exact hs₁.trans (sameSetup_connect location s₁)
  · exact hs₂.trans (sameSetup_run _ _ s₂)

theorem sameSetup_after (s : Session) (event : Event) : s.SameSetup (s.after event) := by
  cases event with
  | init => exact sameSetup_init s
  | close => exact ⟨rfl, rfl, rfl, rfl⟩
  | operation op => exact sameSetup_perform op s
  | command c =>
    show s.SameSetup (stateOf (c.run s))
    rcases command_run_cases c s with ⟨e, hrun⟩ | ⟨value, hrun⟩ | ⟨op, _, hrun⟩
    · rw [hrun]
      exact .refl s
    · rw [hrun]
      exact .refl s
    · rw [hrun, stateOf_map]
      exact sameSetup_perform op s

/-- The session after several events. -/
def afterAll (s : Session) (events : List Event) : Session := events.foldl after s

theorem sameSetup_afterAll (s : Session) (events : List Event) : s.SameSetup (s.afterAll events) := by
  induction events generalizing s with
  | nil => exact .refl s
  | cons event rest ih => exact (sameSetup_after s event).trans (ih _)

theorem Reachable.afterAll (h : s.Reachable) (events : List Event) :
    (s.afterAll events).Reachable := by
  induction events generalizing s with
  | nil => exact h
  | cons event rest ih => exact ih (h.after event)

/-- An opening that succeeds leaves a session with the same setup, reachable as it was. -/
theorem opened_of_init (h : init s = .ok () s') : s.SameSetup s' ∧ (s.Reachable → s'.Reachable) := by
  have hsetup := sameSetup_init s
  have hreachable (hs : s.Reachable) := hs.after .init
  simp only [Session.after, h] at hsetup hreachable
  exact ⟨hsetup, hreachable⟩

/-- The models of a session are those that its registry accepted. -/
theorem Reachable.registry_proper (h : s.Reachable) : s.registry.Proper := by
  induction h with
  | opened _ h =>
    simp only [ofConfig, bind_eq_ok, mapError_eq_ok, Except.ok.injEq] at h
    obtain ⟨registry, hregistry, rfl⟩ := h
    exact (Registry.ofModels_eq_ok hregistry).2
  | @after s _ event ih =>
    rw [(sameSetup_after s event).registry]
    exact ih

/-! ## The tables -/

/-- Every table of a database was made for one of the models, and no row was added to it yet. -/
def NewFor (models : List Model) (db : Database) : Prop :=
  ∀ t ∈ db.tables, t.rows = [] ∧ t.sequence = 0 ∧ ∃ m ∈ models, m.OwnTable t ∧ t.name = m.tableName

/-- The table of a model is there already, or it is made. -/
theorem createTable_cases {m : Model} (h : createTable m db = .ok () db') :
    db' = db ∧ (db.table? m.tableName).isSome ∨ ∃ t, m.OwnTable t ∧ t.name = m.tableName ∧
      t.rows = [] ∧ t.sequence = 0 ∧ db' = { db with tables := db.tables ++ [t] } := by
  obtain ⟨s, db₁, hlift, hchange⟩ := runBind_eq_ok.mp h
  obtain ⟨hs, rfl⟩ := runOfExcept_eq_ok.mp hlift
  obtain ⟨db₂, hcreate, heq⟩ := map_eq_ok.mp (Action.change_eq_ok.mp hchange)
  cases heq
  have hcreates : m.createTable = .ok s := mapError_eq_ok.mp hs
  have hname : s.table = m.tableName := by
    simp only [Model.createTable, bind_eq_ok, Except.ok.injEq] at hcreates
    obtain ⟨_, _, rfl⟩ := hcreates
    rfl
  rcases Database.createTable_eq_ok hcreate with ⟨rfl, hsome⟩ | ⟨_, hcolumns, rfl⟩
  · exact .inl ⟨rfl, hname ▸ hsome⟩
  · exact .inr ⟨_, .created hcreates hcolumns, hname, rfl, rfl, rfl⟩

/-- The model has a table afterwards, and no table is removed. -/
theorem createTable_keeps {m : Model} (h : createTable m db = .ok () db') :
    (db'.table? m.tableName).isSome ∧ ∀ name, (db.table? name).isSome → (db'.table? name).isSome := by
  rcases createTable_cases h with ⟨rfl, hsome⟩ | ⟨t, _, hname, _, _, rfl⟩
  · exact ⟨hsome, fun _ h => h⟩
  · constructor
    · rw [← hname, Database.table?, List.find?_isSome]
      exact ⟨_, List.mem_append_right _ (List.mem_singleton_self _), sameName_self _⟩
    · intro name hsome
      rw [Database.table?, List.find?_isSome] at hsome ⊢
      obtain ⟨other, hother, hsame⟩ := hsome
      exact ⟨other, List.mem_append_left _ hother, hsame⟩

theorem createTables_keeps {models : List Model}
    (h : (models.forM createTable : Action Unit) db = .ok () db') :
    (∀ m ∈ models, (db'.table? m.tableName).isSome) ∧
      ∀ name, (db.table? name).isSome → (db'.table? name).isSome := by
  induction models generalizing db with
  | nil =>
    cases h
    exact ⟨fun _ hm => absurd hm List.not_mem_nil, fun _ hname => hname⟩
  | cons m rest ih =>
    obtain ⟨⟨⟩, db₁, hfirst, hrest⟩ := runBind_eq_ok.mp h
    obtain ⟨hm, hkept₁⟩ := createTable_keeps hfirst
    obtain ⟨hmodels, hkept⟩ := ih hrest
    exact ⟨List.forall_mem_cons.mpr ⟨hkept _ hm, hmodels⟩, fun name hname =>
      hkept name (hkept₁ name hname)⟩

theorem createTables_newFor {all models : List Model} (hall : ∀ m ∈ models, m ∈ all)
    (h : (models.forM createTable : Action Unit) db = .ok () db') (hdb : NewFor all db) :
    NewFor all db' := by
  induction models generalizing db with
  | nil =>
    cases h
    exact hdb
  | cons m rest ih =>
    rw [List.forall_mem_cons] at hall
    obtain ⟨⟨⟩, db₁, hfirst, hrest⟩ := runBind_eq_ok.mp h
    refine ih hall.2 hrest ?_
    rcases createTable_cases hfirst with ⟨rfl, _⟩ | ⟨t, hown, hname, hrows, hsequence, rfl⟩
    · exact hdb
    · intro other hother
      rcases List.mem_append.mp hother with hother | hother
      · exact hdb other hother
      · rw [List.mem_singleton.mp hother]
        exact ⟨hrows, hsequence, m, hall.1, hown, hname⟩

/-- The steps of an opening that succeeded. -/
theorem init_eq_ok (h : init s = .ok () s') : ∃ location s₁ db db',
    Location.ofUri s.config.uri = .ok location ∧ connect location s = .ok () s₁ ∧
      s₁.database? = some db ∧
      (s.registry.models.forM createTable : Action Unit) db = .ok () db' ∧
        s' = s₁.setDatabase db' := by
  unfold init at h
  simp only at h
  split at h
  next hattempt =>
    cases h
    obtain ⟨location, s₀, hlift, hrest⟩ := runBind_eq_ok.mp hattempt
    obtain ⟨hlocation, rfl⟩ := runOfExcept_eq_ok.mp hlift
    obtain ⟨⟨⟩, s₁, hconnect, hrun⟩ := runBind_eq_ok.mp hrest
    obtain ⟨db, db', hdb, htables, rfl⟩ := run_master_eq_ok hrun
    exact ⟨location, s₁, db, db', mapError_eq_ok.mp hlocation, hconnect, hdb, htables, rfl⟩
  · cases h

/-- An opening succeeds if its steps do. -/
theorem init_of_steps {location : Location} {s₁ : Session}
    (hlocation : Location.ofUri s.config.uri = .ok location)
    (hconnect : connect location s = .ok () s₁) (hdb : s₁.database? = some db)
    (htables : (s.registry.models.forM createTable : Action Unit) db = .ok () db') :
    init s = .ok () (s₁.setDatabase db') := by
  have hrun : run masterName (s.registry.models.forM createTable) s₁ =
      .ok () (s₁.setDatabase db') := by
    rw [run_master hdb, htables]
  have hattempt : (do
      let location ← MonadExcept.ofExcept ((Location.ofUri s.config.uri).mapError .connection)
      connect location
      run masterName (s.registry.models.forM createTable) : Step Unit) s =
        .ok () (s₁.setDatabase db') :=
    runBind_eq_ok.mpr ⟨location, s, runOfExcept_eq_ok.mpr ⟨mapError_eq_ok.mpr hlocation, rfl⟩,
      runBind_eq_ok.mpr ⟨(), s₁, hconnect, hrun⟩⟩
  unfold init
  simp only [hattempt]

/-- The session `s'` comes about by opening the connections of `s` on a database without tables. -/
structure OpensFresh (s s' : Session) : Prop where
  init : Session.init s = .ok () s'
  fresh : ∃ location s₁, Location.ofUri s.config.uri = .ok location ∧
    connect location s = .ok () s₁ ∧ s₁.database? = some (.empty s.planner)

/-- After the opening every model has a table. -/
theorem OpensFresh.tables (h : s.OpensFresh s') : ∃ db, s'.database? = some db ∧
    NewFor s.registry.models db ∧ ∀ m ∈ s.registry.models, ∃ t, db.table? m.tableName = some t := by
  obtain ⟨location, s₁, db, db', hlocation, hconnect, hdb, htables, rfl⟩ := init_eq_ok h.init
  obtain ⟨location', s₁', hlocation', hconnect', hempty⟩ := h.fresh
  cases hlocation.symm.trans hlocation'
  cases hconnect.symm.trans hconnect'
  cases hdb.symm.trans hempty
  have hnew : NewFor s.registry.models (.empty s.planner) := fun t ht => absurd ht List.not_mem_nil
  exact ⟨db', setDatabase_database? hempty, createTables_newFor (fun _ hm => hm) htables hnew,
    fun m hm => Option.isSome_iff_exists.mp ((createTables_keeps htables).1 m hm)⟩

/-! ## Tables that are there already -/

variable {m : Model}

/-- Making a table that is there already changes nothing, whether it succeeds or fails. -/
theorem stateOf_createTable (h : (db.table? m.tableName).isSome) :
    stateOf (createTable m db) = db := by
  cases hrun : createTable m db with
  | ok value db' =>
    obtain ⟨s, db₁, hlift, hchange⟩ := runBind_eq_ok.mp hrun
    obtain ⟨hs, rfl⟩ := runOfExcept_eq_ok.mp hlift
    obtain ⟨db₂, hcreate, heq⟩ := map_eq_ok.mp (Action.change_eq_ok.mp hchange)
    cases heq
    have hname : s.table = m.tableName := by
      have hs' := mapError_eq_ok.mp hs
      simp only [Model.createTable, bind_eq_ok, Except.ok.injEq] at hs'
      obtain ⟨_, _, rfl⟩ := hs'
      rfl
    rcases Database.createTable_eq_ok hcreate with ⟨rfl, _⟩ | ⟨hnone, _⟩
    · rfl
    · rw [hname] at hnone
      rw [hnone] at h
      cases h
  | error e db' =>
    rcases runBind_eq_error.mp hrun with hlift | ⟨s, db₁, hlift, hchange⟩
    · obtain ⟨_, rfl⟩ := runOfExcept_eq_error.mp hlift
      rfl
    · obtain ⟨_, rfl⟩ := runOfExcept_eq_ok.mp hlift
      unfold Action.change at hchange
      split at hchange
      · cases hchange
      · cases hchange
        rfl

theorem stateOf_createTables {models : List Model}
    (h : ∀ m ∈ models, (db.table? m.tableName).isSome) :
    stateOf ((models.forM createTable : Action Unit) db) = db := by
  induction models with
  | nil => rfl
  | cons m rest ih =>
    have hrest := ih fun other hother => h other (List.mem_cons_of_mem _ hother)
    refine stateOf_bind (P := (· = db)) (stateOf_createTable (h m List.mem_cons_self)) ?_
    rintro _ _ rfl
    exact hrest

end Session

end RecordStore
