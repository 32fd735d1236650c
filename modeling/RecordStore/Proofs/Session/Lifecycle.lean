import RecordStore.Proofs.Session.Arguments
import RecordStore.Proofs.Session.Offers

/-!
# The life cycle of the sessions on a file

The data of an application with a database in a file do not depend on when its connections are opened
and closed, on how many sessions of the configuration follow one another, nor on which of the two
connections the router picks. The operations answer what they answer in one session that is opened
once. An operation that finds no connection fails and changes nothing.
-/

namespace RecordStore

namespace Session

/-- What is done in turn with the sessions of one configuration. -/
inductive Turn
  | init
  | close
  /-- A new session of the same configuration takes the place of the one there is. -/
  | renew (router : Router)
  /-- The router answers differently from now on. -/
  | reroute (router : Router)
  | operation (op : Operation)

/-- The session after a turn, whether it succeeded or failed. -/
def take (s : Session) : Turn → Session
  | .init => stateOf (init s)
  | .close => stateOf (close s)
  | .renew router =>
    match ofConfig s.config router s.files s.planner with
    | .ok s' => s'
    | .error _ => s
  | .reroute router => { s with router := router }
  | .operation op => stateOf (perform op s)

namespace Turn

/-- The outcome of an operation; the outcomes of other turns do not count. -/
def outcome (s : Session) : Turn → List (Except StoreError Answer)
  | .operation op => [s.answer op]
  | _ => []

def operation? : Turn → Option Operation
  | .operation op => some op
  | _ => none

/-- A new router picks one of the two connections for every model. -/
def Connected : Turn → Prop
  | .renew router | .reroute router => router.Connected
  | _ => True

end Turn

/-- The outcomes of the operations among several turns. -/
def outcomes (s : Session) : List Turn → List (Except StoreError Answer)
  | [] => []
  | turn :: rest => turn.outcome s ++ outcomes (s.take turn) rest

/-- Every operation comes after an opening, with no closing or new session in between. `opened` says
whether there was such an opening before. -/
def Orderly (opened : Bool) : List Turn → Prop
  | [] => True
  | .init :: rest => Orderly true rest
  | .close :: rest | .renew _ :: rest => Orderly false rest
  | .reroute _ :: rest => Orderly opened rest
  | .operation _ :: rest => opened = true ∧ Orderly opened rest

variable {s r : Session} {path : String} {db : Database}

/-! ## Operations without a connection -/

/-- An operation fails without a connection, be it that none is open or that the router picks none
of the two. It changes nothing, and it names the connection unless its arguments are at fault. -/
theorem perform_without_connection {op : Operation}
    (h : s.isClosed = true ∨ ∀ m plan, op.plan s.registry = .ok (m, plan) →
      ¬ Known (s.connectionOf m plan.access)) :
    ∃ e, perform op s = .error e s ∧ (e.OfArguments ∨ ∃ m plan,
      op.plan s.registry = .ok (m, plan) ∧
        e = .connection (.notInitialized (s.connectionOf m plan.access))) := by
  cases hplan : op.plan s.registry with
  | error e =>
    exact ⟨e, perform_of_fault hplan, .inl (Operation.plan_checksArguments s.registry op hplan)⟩
  | ok found =>
    obtain ⟨m, plan⟩ := found
    refine ⟨_, ?_, .inr ⟨m, plan, rfl, rfl⟩⟩
    have hmissing : s.handle? (s.connectionOf m plan.access) = none := by
      rcases h with hclosed | hroute
      · rw [handle?, Option.isNone_iff_eq_none.mp hclosed, Option.bind_none]
      · exact handle?_eq_none (hroute m plan hplan) s
    rw [perform_of_plan hplan]
    exact run_of_missing (by rw [databaseOf?, hmissing, Option.bind_none]) _

/-! ## Sessions on the same data -/

/-- Two sessions of one configuration with the same data in the file that its location leads to. The
second one is open. -/
structure Alike (path : String) (s r : Session) : Prop where
  uri : Location.ofUri s.config.uri = .ok (.file path)
  shared : Target.ofPath path ≠ .ok .own
  models : Registry.ofModels s.config.database s.config.models = .ok s.registry
  proper : s.Proper
  registry : r.registry = s.registry
  routed : s.router.Connected
  routed' : r.router.Connected
  data : ∃ db, s.Located (· = db) (.file path) ∧ r.Located (· = db) (.file path) ∧
    ∀ m ∈ s.registry.models, (db.table? m.tableName).isSome
  opened : r.isClosed = false

theorem isClosed_of_database (h : s.database? = some db) : s.isClosed = false := by
  cases hc : s.connections with
  | none => cases (database?_of_closed hc).symm.trans h
  | some c => rw [isClosed, hc, Option.isNone_some]

theorem Located.database_eq (h : s.Located (· = db) (.file path)) (hopen : s.isClosed = false) :
    s.database? = some db := by
  obtain ⟨c, hc⟩ := exists_connections hopen
  obtain ⟨db', hdb, rfl⟩ := h.database hc
  exact hdb

/-- A plan runs on the open database. -/
theorem perform_of_database {op : Operation} {m : Model} {plan : Plan} (hj : s.Joint)
    (hr : s.router.Connected) (hplan : op.plan s.registry = .ok (m, plan))
    (hdb : s.database? = some db) :
    perform op s = match plan.action db with
      | .ok answer db' => .ok answer (s.setDatabase db')
      | .error e db' => .error e (s.setDatabase db') := by
  have hc : Known (s.connectionOf m plan.access) := by
    cases plan.access with
    | read => exact (hr m).1
    | write => exact (hr m).2
  rw [perform_of_plan hplan, run_of_database hj hc hdb]
  cases plan.action db <;> rfl

namespace Alike

theorem init (h : Alike path s r) :
    Alike path (stateOf (init s)) r ∧ (stateOf (init s)).isClosed = false := by
  obtain ⟨db, hs, hr, htables⟩ := h.data
  have hsetup := sameSetup_init s
  have hlocated := hs.reopen h.uri (fun hown => absurd hown h.shared) fun _ heq => heq ▸ htables
  obtain ⟨place, _, hleads, rfl, _⟩ | ⟨hown, _⟩ := hs
  case inr => exact absurd hown.target h.shared
  refine ⟨⟨hsetup.config ▸ h.uri, h.shared, by rw [hsetup.config, hsetup.registry, h.models],
    h.proper.init,
    hsetup.registry ▸ h.registry, hsetup.router ▸ h.routed, h.routed', ⟨_, hlocated, hr, ?_⟩,
    h.opened⟩, ?_⟩
  · rwa [hsetup.registry]
  · rw [stateOf_init_reopen h.uri hleads htables]
    rfl

theorem close (h : Alike path s r) : Alike path (stateOf (close s)) r := by
  obtain ⟨db, hs, hr, htables⟩ := h.data
  exact ⟨h.uri, h.shared, h.models, ⟨h.proper.files, nofun⟩, h.registry, h.routed, h.routed',
    ⟨db, hs.close, hr, htables⟩, h.opened⟩

theorem reroute (h : Alike path s r) {router : Router} (hrouter : router.Connected) :
    Alike path { s with router := router } r :=
  ⟨h.uri, h.shared, h.models, ⟨h.proper.files, h.proper.memory⟩, h.registry, hrouter, h.routed',
    h.data, h.opened⟩

theorem take_renew (h : Alike path s r) (router : Router) :
    s.take (.renew router) = { stateOf (Session.close s) with router := router } := by
  have hnew : ofConfig s.config router s.files s.planner =
      .ok ⟨s.config, s.registry, router, none, s.files, s.planner⟩ := by
    simp only [ofConfig, h.models, mapError_ok, ok_bind]
  simp only [take, hnew]
  rfl

/-- An operation has the same outcome in both sessions and leaves them with the same data. -/
theorem perform (h : Alike path s r) (hopen : s.isClosed = false) (op : Operation) :
    s.answer op = r.answer op ∧
      Alike path (stateOf (perform op s)) (stateOf (perform op r)) ∧
        (stateOf (Session.perform op s)).isClosed = false := by
  cases hplan : op.plan s.registry with
  | error e =>
    have hs := perform_of_fault hplan
    have hr : Session.perform op r = .error e r := perform_of_fault (h.registry ▸ hplan)
    simp only [answer, hs, hr]
    exact ⟨trivial, h, hopen⟩
  | ok found =>
    obtain ⟨m, plan⟩ := found
    obtain ⟨db, hs, hr, htables⟩ := h.data
    have hsdb := hs.database_eq hopen
    have hrdb := hr.database_eq h.opened
    have hshared : ∀ other, Location.file path = .file other → Target.ofPath other ≠ .ok .own :=
      fun _ heq => Location.file.inj heq ▸ h.shared
    have hsrun := perform_of_database (hs.joint hshared) h.routed hplan hsdb
    have hrrun := perform_of_database (hr.joint hshared) h.routed' (h.registry ▸ hplan) hrdb
    have hkeeps := Operation.planOn_keeps (Operation.covers_writesAll m op) (plan_eq_ok hplan).2
    -- whether the action succeeds or fails, both sessions hold the database that it leaves
    obtain ⟨db', hwrites, hanswer, hs', hr'⟩ : ∃ db', m.WritesAll db db' ∧ s.answer op = r.answer op ∧
        stateOf (Session.perform op s) = s.setDatabase db' ∧
          stateOf (Session.perform op r) = r.setDatabase db' := by
      cases haction : plan.action db with
      | ok answer db' =>
        rw [haction] at hsrun hrrun
        exact ⟨db', hkeeps.commits haction, by simp only [Session.answer, hsrun, hrrun],
          by rw [hsrun]; rfl, by rw [hrrun]; rfl⟩
      | error e db' =>
        rw [haction] at hsrun hrrun
        exact ⟨db', hkeeps.leaves (h.proper.database hsdb) haction,
          by simp only [Session.answer, hsrun, hrrun], by rw [hsrun]; rfl, by rw [hrrun]; rfl⟩
    have hproper := h.proper.perform op
    have hsetup := sameSetup_setDatabase s db'
    have hsetup' := sameSetup_setDatabase r db'
    rw [hs'] at hproper
    rw [hs', hr']
    refine ⟨hanswer, ⟨hsetup.config ▸ h.uri, h.shared,
      by rw [hsetup.config, hsetup.registry, h.models], hproper,
      by rw [hsetup.registry, hsetup'.registry, h.registry], hsetup.router ▸ h.routed,
      hsetup'.router ▸ h.routed', ⟨db', hs.setDatabase hsdb rfl, hr.setDatabase hrdb rfl,
        fun m' hm' => ?_⟩, isClosed_of_database (setDatabase_database? hrdb)⟩,
      isClosed_of_database (setDatabase_database? hsdb)⟩
    rw [hsetup.registry] at hm'
    exact hwrites.table?_isSome (htables m' hm')

/-- The operations among several turns have the outcomes that they have one after another in the
other session. -/
theorem outcomes (h : Alike path s r) {opened : Bool} (hopened : opened = true → s.isClosed = false)
    {turns : List Turn} (horderly : Orderly opened turns) (hrouters : ∀ t ∈ turns, t.Connected) :
    s.outcomes turns = r.outcomes ((turns.filterMap Turn.operation?).map .operation) := by
  induction turns generalizing s r opened with
  | nil => rfl
  | cons turn rest ih =>
    rw [List.forall_mem_cons] at hrouters
    cases turn with
    | init => exact ih h.init.1 (fun _ => h.init.2) horderly hrouters.2
    | close =>
      have hrest : Orderly false rest := horderly
      exact ih h.close (fun hopen => absurd hopen Bool.false_ne_true) hrest hrouters.2
    | renew router =>
      have hnew := h.close.reroute hrouters.1
      rw [← h.take_renew] at hnew
      have hrest : Orderly false rest := horderly
      exact ih hnew (fun hopen => absurd hopen Bool.false_ne_true) hrest hrouters.2
    | reroute router => exact ih (h.reroute hrouters.1) hopened horderly hrouters.2
    | operation op =>
      obtain ⟨hanswer, halike, hstill⟩ := h.perform (hopened horderly.1) op
      have hrest := ih halike (fun _ => hstill) horderly.2 hrouters.2
      show [s.answer op] ++ _ = [r.answer op] ++ _
      rw [hanswer]
      exact congrArg ([r.answer op] ++ ·) hrest

end Alike

/-! ## The first opening -/

/-- Two sessions of one configuration that open the same files for the first time hold the same
data. -/
theorem alike_of_init (huri : Location.ofUri s.config.uri = .ok (.file path))
    (hshared : Target.ofPath path ≠ .ok .own)
    (hmodels : Registry.ofModels s.config.database s.config.models = .ok s.registry)
    (hproper : s.Proper) (hs : s.router.Connected) (hinit : init s = .ok () r) {router : Router}
    (hrouter : router.Connected) :
    Alike path (stateOf (init { s with router := router })) r ∧
      (stateOf (init { s with router := router })).isClosed = false := by
  obtain ⟨location, s₁, db, db', hlocation, hconnect, hdb, htables, rfl⟩ := init_eq_ok hinit
  cases huri.symm.trans hlocation
  obtain ⟨made, hmake, ⟨files, place, hopen, rfl⟩ | ⟨hown, _⟩⟩ := connect_file_eq_ok hconnect
  case inr => exact absurd hown.target hshared
  have hconnect' := connect_of_open (s := { s with router := router }) hmake hopen
  have hstate := stateOf_init_of_connect (s := { s with router := router }) huri hconnect' hdb
  rw [htables] at hstate
  have hrproper := hproper.init
  rw [hinit] at hrproper
  have hdata := located_of_connect (P := (· = db')) hconnect rfl
  have hdata' := located_of_connect (P := (· = db')) hconnect' rfl
  rw [hstate]
  rw [setDatabase_of_file rfl] at hrproper hdata hdata' ⊢
  refine ⟨⟨huri, hshared, hmodels, ⟨hrproper.files, hrproper.memory⟩, rfl, hrouter, hs,
    ⟨db', hdata', hdata, (createTables_keeps htables).1⟩, rfl⟩, rfl⟩

/-- Before the first opening nothing happens to the files. -/
theorem outcomes_of_closed (huri : Location.ofUri s.config.uri = .ok (.file path))
    (hshared : Target.ofPath path ≠ .ok .own)
    (hmodels : Registry.ofModels s.config.database s.config.models = .ok s.registry)
    (hproper : s.Proper) (hclosed : s.connections = none) (hs : s.router.Connected)
    (hinit : init s = .ok () r) {router : Router} (hrouter : router.Connected) {turns : List Turn}
    (horderly : Orderly false turns) (hrouters : ∀ t ∈ turns, t.Connected) :
    ({ s with router := router } : Session).outcomes turns =
      r.outcomes ((turns.filterMap Turn.operation?).map .operation) := by
  induction turns generalizing router with
  | nil => rfl
  | cons turn rest ih =>
    rw [List.forall_mem_cons] at hrouters
    cases turn with
    | init =>
      obtain ⟨halike, hopen⟩ := alike_of_init huri hshared hmodels hproper hs hinit hrouter
      exact halike.outcomes (fun _ => hopen) horderly hrouters.2
    | close =>
      have hstays : stateOf (close { s with router := router }) = { s with router := router } := by
        show ({ s with router := router, connections := none } : Session) = _
        rw [← hclosed]
      show (stateOf (close { s with router := router })).outcomes rest = _
      rw [hstays]
      exact ih hrouter horderly hrouters.2
    | renew other =>
      have hnew : ofConfig s.config other s.files s.planner = .ok { s with router := other } := by
        simp only [ofConfig, hmodels, mapError_ok, ok_bind, ← hclosed]
      show (take { s with router := router } (.renew other)).outcomes rest = _
      simp only [take, hnew]
      exact ih hrouters.1 horderly hrouters.2
    | reroute other => exact ih hrouters.1 horderly hrouters.2
    | operation op => exact absurd horderly.1 Bool.false_ne_true

/-- The outcomes of operations on a database in a file do not depend on the life cycle of the sessions
nor on the router: they are those of one session that is opened once and has the default router. An
operation that finds no connection fails and changes nothing; unless its arguments are at fault, it
names the connection. -/
theorem lifecycle_indifferent {config : DatabaseConfig} {files : FileTree} {planner : Planner}
    {s₀ r₀ : Session}
    (hfiles : files.Proper) (huri : Location.ofUri config.uri = .ok (.file path))
    (hplain : Uri.scheme.isPrefixOf path.toList = false)
    (h₀ : ofConfig config .default files planner = .ok s₀) (hinit : init s₀ = .ok () r₀) :
    (∀ router s turns, ofConfig config router files planner = .ok s → router.Connected →
      (∀ turn ∈ turns, turn.Connected) → Orderly false turns →
        s.outcomes turns =
          s₀.outcomes (.init :: (turns.filterMap Turn.operation?).map .operation)) ∧
    ∀ (s : Session) (op : Operation),
      (s.isClosed = true ∨ ∀ m plan, op.plan s.registry = .ok (m, plan) →
        ¬ Known (s.connectionOf m plan.access)) →
      ∃ e, perform op s = .error e s ∧ (e.OfArguments ∨ ∃ m plan,
        op.plan s.registry = .ok (m, plan) ∧
          e = .connection (.notInitialized (s.connectionOf m plan.access))) := by
  refine ⟨fun router s turns hs hrouter hrouters horderly => ?_, fun s op => perform_without_connection⟩
  have hshared : Target.ofPath path ≠ .ok .own := by
    rw [Target.ofPath_of_plain hplain]
    exact nofun
  have hproper : s₀.Proper := (Reachable.opened hfiles h₀).proper
  obtain ⟨registry, hregistry, heq⟩ := bind_eq_ok.mp h₀
  cases heq
  have hmodels := mapError_eq_ok.mp hregistry
  have hsame : s = ⟨config, registry, router, none, files, planner⟩ := by
    simp only [ofConfig, hmodels, mapError_ok, ok_bind, Except.ok.injEq] at hs
    exact hs.symm
  have houtcomes := outcomes_of_closed huri hshared hmodels hproper rfl Router.connected_default
    hinit hrouter horderly hrouters
  have hopened : ∀ turns, (⟨config, registry, .default, none, files, planner⟩ : Session).outcomes
      (.init :: turns) = r₀.outcomes turns := by
    intro turns
    show (stateOf (init _)).outcomes turns = _
    rw [hinit]
    rfl
  rw [hsame, hopened]
  exact houtcomes

/-- A configuration of persons in a file. -/
def fileConfig : DatabaseConfig := ⟨"sqlite://data/persons.db", "test", uniqueConfig.models⟩

/-- A session with that configuration and no connections. -/
def fileSession : Session :=
  ⟨fileConfig, .of "test" fileConfig.models, .default, none, ⟨[]⟩, .default⟩

/-- A person is there after the connections were closed, a new session reads and writes on the other
connections than the first one did, and its connections are opened twice. Before that it cannot
count. -/
theorem person_in_a_file :
    fileSession.outcomes [.init, .operation (.create "Person" [("name", .string "Ann")]), .close,
        .renew (.constant masterName slaveName), .init, .init, .operation (.count "Person" none)] =
      [.ok (.record [("_id", .ofInt64 1), ("name", .string "Ann")]), .ok (.count 1)] ∧
    perform (.count "Person" none) fileSession =
      .error (.connection (.notInitialized slaveName)) fileSession := by
  have hindifferent := lifecycle_indifferent (FileTree.proper_ofTexts [])
    (rfl : Location.ofUri fileConfig.uri = .ok (.file "data/persons.db")) rfl
    (rfl : ofConfig fileConfig .default _ = .ok fileSession) rfl
  have hother : (Router.constant masterName slaveName).Connected := fun _ => ⟨.inl rfl, .inr rfl⟩
  refine ⟨?_, rfl⟩
  refine (hindifferent.1 .default fileSession _ rfl Router.connected_default ?_ ?_).trans rfl
  · simp [Turn.Connected, hother]
  · exact ⟨rfl, rfl, trivial⟩

end Session

end RecordStore
