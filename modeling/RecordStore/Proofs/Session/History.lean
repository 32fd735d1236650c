import RecordStore.Proofs.Operation.Plans
import RecordStore.Proofs.Session.Handles
import RecordStore.CommandLine.Run

/-!
# The history of a session

A session is opened from a configuration over a tree of files, and then its connections are opened
and closed and operations and commands are carried out, in any order. All databases that it can
reach are proper at every moment. An operation or a command takes the open database through
statements of its model if it succeeds, and otherwise leaves all data as they were.
-/

namespace RecordStore

namespace Session

/-- What can happen to a session. -/
inductive Event
  | init
  | close
  | operation (op : Operation)
  | command (c : Command)

/-- The session after an event, whether it succeeded or failed. -/
def after (s : Session) : Event → Session
  | .init => stateOf (init s)
  | .close => stateOf (close s)
  | .operation op => stateOf (perform op s)
  | .command c => stateOf (c.run s)

/-- The sessions that come about from a configuration over proper files. -/
inductive Reachable : Session → Prop
  | opened {config : DatabaseConfig} {router : Router} {files : FileTree} {planner : Planner}
      {s : Session} (hf : files.Proper) (h : ofConfig config router files planner = .ok s) :
      Reachable s
  | after {s : Session} (h : Reachable s) (event : Event) : Reachable (s.after event)

/-- Every database that a session can reach has tables of different names. -/
structure Proper (s : Session) : Prop where
  files : s.files.Proper
  memory : ∀ c, s.connections = some c → ∀ db ∈ c.memories, db.DistinctNames

variable {s s' : Session} {db db' : Database} {handle : Handle}

theorem Proper.databaseAt (h : s.Proper) (hdb : s.databaseAt? handle = some db) :
    db.DistinctNames := by
  cases handle with
  | memory number =>
    obtain ⟨c, hc, hmemory⟩ := Option.bind_eq_some_iff.mp hdb
    exact h.memory c hc db (List.mem_of_getElem? hmemory)
  | file place =>
    unfold databaseAt? at hdb
    simp only at hdb
    split at hdb
    next hnode =>
      cases hdb
      exact h.files _ db hnode
    · cases hdb

theorem Proper.setDatabaseAt (h : s.Proper) (hd : db.DistinctNames) (handle : Handle) :
    (s.setDatabaseAt db handle).Proper := by
  cases handle with
  | memory number =>
    refine ⟨h.files, fun c hc other hother => ?_⟩
    obtain ⟨c', hc', rfl⟩ := Option.map_eq_some_iff.mp hc
    rcases List.mem_or_eq_of_mem_set hother with hother | rfl
    · exact h.memory c' hc' other hother
    · exact hd
  | file place =>
    exact ⟨h.files.set fun other hother => Node.database.inj hother ▸ hd, h.memory⟩

theorem Proper.database (h : s.Proper) (hdb : s.database? = some db) : db.DistinctNames := by
  obtain ⟨handle, hleads⟩ := databaseOf?_eq_some.mp hdb
  exact h.databaseAt hleads.database

theorem Proper.setDatabase (h : s.Proper) (hd : db.DistinctNames) : (s.setDatabase db).Proper := by
  unfold Session.setDatabase
  split
  · exact h
  next handle _ => exact h.setDatabaseAt hd handle

/-! ## Operations and commands -/

theorem run_failsWith {α : Type} {P : StoreError → Prop} {name : String} {action : Action α}
    (h : action.FailsWith P) {e : StoreError} (hrun : run name action s = .error e s') :
    (∃ cause, e = .connection cause) ∨ P e := by
  rcases run_eq_error hrun with ⟨rfl, _⟩ | ⟨_, _, _, _, haction, _⟩
  · exact .inl ⟨_, rfl⟩
  · exact .inr (h haction)

theorem plan_eq_ok {op : Operation} {registry : Registry} {m : Model} {plan : Plan}
    (h : op.plan registry = .ok (m, plan)) :
    registry.get op.model = .ok m ∧ op.planOn m = .ok plan := by
  simp only [Operation.plan, bind_eq_ok, mapError_eq_ok, Except.ok.injEq] at h
  obtain ⟨found, hget, p, hplan, heq⟩ := h
  cases heq
  exact ⟨hget, hplan⟩

/-- The plan of an operation on a model of the application. -/
theorem plan_of_get (op : Operation) {registry : Registry} {m : Model}
    (hm : registry.get op.model = .ok m) : op.plan registry = (op.planOn m).map (m, ·) := by
  simp only [Operation.plan, hm, mapError_ok, ok_bind]
  cases op.planOn m <;> rfl

/-- The connection of a plan for a model. -/
def connectionOf (s : Session) (m : Model) (access : Access) : String :=
  match access with
  | .read => s.router.forRead m
  | .write => s.router.forWrite m

theorem perform_of_plan {op : Operation} {m : Model} {plan : Plan}
    (h : op.plan s.registry = .ok (m, plan)) :
    perform op s = run (s.connectionOf m plan.access) plan.action s := by
  show EStateM.bind (MonadExcept.ofExcept (op.plan s.registry)) _ s = _
  rw [h]
  rfl

theorem perform_of_fault {op : Operation} {e : StoreError} (h : op.plan s.registry = .error e) :
    perform op s = .error e s := by
  show EStateM.bind (MonadExcept.ofExcept (op.plan s.registry)) _ s = _
  rw [h]
  rfl

theorem perform_of_action {op : Operation} {m : Model} {plan : Plan} {answer : Answer}
    (h : op.plan s.registry = .ok (m, plan)) (hj : s.Joint)
    (hc : Known (s.connectionOf m plan.access))
    (hdb : s.database? = some db) (haction : plan.action db = .ok answer db') :
    perform op s = .ok answer (s.setDatabase db') := by
  rw [perform_of_plan h, run_of_database hj hc hdb, haction]

theorem perform_of_failure {op : Operation} {m : Model} {plan : Plan} {e : StoreError}
    (h : op.plan s.registry = .ok (m, plan)) (hj : s.Joint)
    (hc : Known (s.connectionOf m plan.access))
    (hdb : s.database? = some db) (haction : plan.action db = .error e db') :
    perform op s = .error e (s.setDatabase db') := by
  rw [perform_of_plan h, run_of_database hj hc hdb, haction]

/-- What an operation does if it succeeds. -/
theorem perform_eq_ok {op : Operation} {answer : Answer} (h : perform op s = .ok answer s') :
    ∃ m plan handle db db', op.plan s.registry = .ok (m, plan) ∧
      s.Leads (s.connectionOf m plan.access) handle db ∧ plan.action db = .ok answer db' ∧
        m.WritesAll db db' ∧ s' = s.setDatabaseAt db' handle := by
  cases hplan : op.plan s.registry with
  | error e =>
    rw [perform_of_fault hplan] at h
    cases h
  | ok found =>
    obtain ⟨m, plan⟩ := found
    rw [perform_of_plan hplan] at h
    obtain ⟨handle, db, db', hleads, haction, heq⟩ := run_eq_ok h
    have hkeeps := Operation.planOn_keeps (Operation.covers_writesAll m op) (plan_eq_ok hplan).2
    exact ⟨m, plan, handle, db, db', rfl, hleads, haction, hkeeps.commits haction, heq⟩

/-- An operation that fails leaves the session as it was, or it leaves the database of its connection
behind some of its statements, and unless it creates a record, behind none. -/
theorem perform_eq_error (hs : s.Proper) {op : Operation} {e : StoreError}
    (h : perform op s = .error e s') : s' = s ∨ ∃ m plan handle db db',
      op.plan s.registry = .ok (m, plan) ∧ s.Leads (s.connectionOf m plan.access) handle db ∧
        plan.action db = .error e db' ∧ m.WritesAll db db' ∧
          ((∀ name record, op = .create name record → m.Narrow) → db' = db) ∧
            s' = s.setDatabaseAt db' handle := by
  cases hplan : op.plan s.registry with
  | error cause =>
    rw [perform_of_fault hplan] at h
    cases h
    exact .inl rfl
  | ok found =>
    obtain ⟨m, plan⟩ := found
    rw [perform_of_plan hplan] at h
    rcases run_eq_error h with ⟨_, heq⟩ | ⟨handle, db, db', hleads, haction, heq⟩
    · exact .inl heq
    · have hkeeps := Operation.planOn_keeps (Operation.covers_writesAll m op) (plan_eq_ok hplan).2
      have hd := hs.databaseAt hleads.database
      exact .inr ⟨m, plan, handle, db, db', rfl, hleads, haction, hkeeps.leaves hd haction,
        fun hm => hkeeps.atomic hm hd haction, heq⟩

/-- What an operation does to the database that both connections reach, if it succeeds. -/
theorem Joint.perform_eq_ok (hj : s.Joint) {op : Operation} {answer : Answer}
    (h : perform op s = .ok answer s') : ∃ m plan db db', op.plan s.registry = .ok (m, plan) ∧
      s.database? = some db ∧ plan.action db = .ok answer db' ∧ m.WritesAll db db' ∧
        s' = s.setDatabase db' := by
  obtain ⟨m, plan, handle, db, db', hplan, hleads, haction, hw, rfl⟩ := Session.perform_eq_ok h
  have hmaster := hj.leads hleads
  exact ⟨m, plan, db, db', hplan, hmaster.databaseOf, haction, hw,
    (setDatabase_eq hmaster.found _).symm⟩

/-- A command that stands for an operation carries it out and shows the answer. -/
theorem command_run_of_operation {c : Command} {op : Operation}
    (h : c.operation? s.files = .ok (some op)) : c.run s = (c.shown <$> perform op) s := by
  show EStateM.bind (MonadExcept.ofExcept (c.operation? s.files)) _ s = _
  rw [h]
  rfl

/-- A command carries out the operation that it stands for, if it stands for one. -/
theorem command_run_cases (c : Command) (s : Session) :
    (∃ e, c.run s = .error e s) ∨ (∃ value, c.run s = .ok value s) ∨
      ∃ op, c.operation? s.files = .ok (some op) ∧ c.run s = (c.shown <$> perform op) s := by
  have hrun : c.run s = EStateM.bind (MonadExcept.ofExcept (c.operation? s.files)) _ s := rfl
  cases hop : c.operation? s.files with
  | error e =>
    rw [hop] at hrun
    exact .inl ⟨e, hrun⟩
  | ok found =>
    cases found with
    | none =>
      rw [hop] at hrun
      exact .inr (.inl ⟨_, hrun⟩)
    | some op => exact .inr (.inr ⟨op, rfl, command_run_of_operation hop⟩)

theorem command_eq_error {c : Command} {e : StoreError} (h : c.run s = .error e s') :
    s' = s ∨ ∃ op, c.operation? s.files = .ok (some op) ∧ perform op s = .error e s' := by
  rcases command_run_cases c s with ⟨_, hrun⟩ | ⟨_, hrun⟩ | ⟨op, hop, hrun⟩
  · rw [hrun] at h
    cases h
    exact .inl rfl
  · rw [hrun] at h
    cases h
  · rw [hrun] at h
    exact .inr ⟨op, hop, runMap_eq_error.mp h⟩

/-! ## What every event keeps -/

theorem Proper.perform (hs : s.Proper) (op : Operation) : (stateOf (perform op s)).Proper := by
  cases hrun : Session.perform op s with
  | ok answer s' =>
    obtain ⟨m, plan, handle, db, db', _, hleads, _, hw, rfl⟩ := perform_eq_ok hrun
    exact hs.setDatabaseAt (hw.distinctNames (hs.databaseAt hleads.database)) handle
  | error e s' =>
    rcases perform_eq_error hs hrun with rfl | ⟨_, _, handle, db, db', _, hleads, _, hw, _, rfl⟩
    · exact hs
    · exact hs.setDatabaseAt (hw.distinctNames (hs.databaseAt hleads.database)) handle

theorem Proper.command (hs : s.Proper) (c : Command) : (stateOf (c.run s)).Proper := by
  rcases command_run_cases c s with ⟨e, hrun⟩ | ⟨value, hrun⟩ | ⟨op, _, hrun⟩
  · rw [hrun]
    exact hs
  · rw [hrun]
    exact hs
  · rw [hrun, stateOf_map]
    exact hs.perform op

theorem Proper.connect (hs : s.Proper) (location : Location) :
    (stateOf (connect location s)).Proper := by
  have hempty {c : Connections} (hc : ∀ db ∈ c.memories, db = .empty s.planner) :
      ∀ db ∈ c.memories, db.DistinctNames :=
    fun db hdb => hc db hdb ▸ Database.empty_distinctNames s.planner
  unfold Session.connect
  split
  · refine ⟨hs.files, fun c hc => hempty ?_⟩
    cases hc
    exact List.forall_mem_singleton.mpr rfl
  next path =>
    split
    · exact hs
    next files hparent =>
      have hfiles := hs.files.makeParent hparent
      split
      · exact ⟨hfiles, hs.memory⟩
      next files' master hmaster =>
        have hfiles' := hfiles.openPath hmaster
        split
        · exact ⟨hfiles', hs.memory⟩
        next files'' slave hslave =>
          refine ⟨hfiles'.openPath hslave, fun c hc => hempty ?_⟩
          cases hc
          simp

theorem createTable_distinctNames (m : Model) (hd : db.DistinctNames) :
    (stateOf (createTable m db)).DistinctNames := by
  refine stateOf_bind (P := Database.DistinctNames) ?_ fun s db hd => ?_
  · rwa [stateOf_ofExcept]
  · cases hrun : Action.change _ (fun db => (db.createTable s).map (·, ())) db with
    | ok value db' =>
      obtain ⟨db₁, hcreate, heq⟩ := map_eq_ok.mp (Action.change_eq_ok.mp hrun)
      cases heq
      exact Database.createTable_distinctNames hd hcreate
    | error e db' =>
      obtain rfl := Action.atomic_change _ _ hd hrun
      exact hd

theorem createTables_distinctNames (models : List Model) (hd : db.DistinctNames) :
    (stateOf ((models.forM createTable : Action Unit) db)).DistinctNames := by
  induction models generalizing db with
  | nil => exact hd
  | cons m rest ih =>
    exact stateOf_bind (P := Database.DistinctNames) (createTable_distinctNames m hd)
      fun _ _ hd => ih hd

theorem Proper.run {α : Type} (hs : s.Proper) (connection : String) (action : Action α)
    (h : ∀ db, db.DistinctNames → (stateOf (action db)).DistinctNames) :
    (stateOf (run connection action s)).Proper := by
  cases hrun : Session.run connection action s with
  | ok v s' =>
    obtain ⟨handle, db, db', hleads, haction, rfl⟩ := run_eq_ok hrun
    have hdb' := h db (hs.databaseAt hleads.database)
    rw [haction] at hdb'
    exact hs.setDatabaseAt hdb' handle
  | error e s' =>
    rcases run_eq_error hrun with ⟨_, rfl⟩ | ⟨handle, db, db', hleads, haction, rfl⟩
    · exact hs
    · have hdb' := h db (hs.databaseAt hleads.database)
      rw [haction] at hdb'
      exact hs.setDatabaseAt hdb' handle

/-- The steps of the opening, without the wording of their failures. -/
theorem stateOf_init (s : Session) : stateOf (init s) = stateOf ((do
    let location ← MonadExcept.ofExcept ((Location.ofUri s.config.uri).mapError .connection)
    connect location
    run masterName (s.registry.models.forM createTable) : Step Unit) s) := by
  unfold init
  simp only
  split
  next hok => rw [hok]
  next herror =>
    rw [herror]
    rfl

theorem Proper.init (hs : s.Proper) : (stateOf (init s)).Proper := by
  rw [stateOf_init]
  refine stateOf_bind ?_ fun location s₁ hs₁ => stateOf_bind (hs₁.connect location) fun _ s₂ hs₂ => ?_
  · rwa [stateOf_ofExcept]
  · exact hs₂.run _ _ fun db hd => createTables_distinctNames _ hd

theorem Proper.after (hs : s.Proper) (event : Event) : (s.after event).Proper := by
  cases event with
  | init => exact hs.init
  | close => exact ⟨hs.files, nofun⟩
  | operation op => exact hs.perform op
  | command c => exact hs.command c

/-- Every session that comes about is proper. -/
theorem Reachable.proper (h : s.Reachable) : s.Proper := by
  induction h with
  | opened hf h =>
    simp only [ofConfig, bind_eq_ok, Except.ok.injEq] at h
    obtain ⟨registry, _, rfl⟩ := h
    refine ⟨hf, fun c hc => ?_⟩
    cases hc
  | after _ event ih => exact ih.after event

/-! ## Failures -/

/-- An operation that fails changes no data, unless it creates a record of a model that is not
narrow. -/
theorem perform_sameData (hs : s.Proper) {op : Operation} {e : StoreError}
    (h : perform op s = .error e s')
    (hop : ∀ name record, op = .create name record → ∀ m, s.registry.get name = .ok m → m.Narrow) :
    s.SameData s' := by
  rcases perform_eq_error hs h with rfl | ⟨m, plan, handle, db, db', hplan, hleads, _, _, hsame, rfl⟩
  · exact .refl _
  · have hget := (plan_eq_ok hplan).1
    obtain rfl : db' = db := hsame fun name record heq => by
      subst heq
      exact hop name record rfl m hget
    exact setDatabaseAt_sameData hleads.database

/-! ## An example -/

/-- A configuration whose records have different names. -/
def uniqueConfig : DatabaseConfig :=
  ⟨"sqlite://:memory:", "test", [⟨"Person", none, [⟨"name", .text, false, true, none⟩]⟩]⟩

/-- A session with that configuration and no connections. -/
def uniqueSession : Session :=
  ⟨uniqueConfig, .of "test" uniqueConfig.models, .default, none, ⟨[]⟩, .default⟩

end Session

end RecordStore
