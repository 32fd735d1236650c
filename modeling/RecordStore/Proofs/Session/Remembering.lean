import RecordStore.Proofs.Session.Serving
import RecordStore.Proofs.Operation.Effects

/-!
# The keys of the past

A table does not remember its rows, but its counter remembers the largest key. The keys that rows of
a model have had since the database was created are gathered here beside the session, event by event:
whatever an event leaves in the table is there afterwards, also what is removed later, and a refused
event leaves nothing. The counter has reached all of them, and it is one of them as soon as it has
left zero.
-/

namespace RecordStore

/-- The rows of the table of a model. -/
def Database.rowsOf (db : Database) (m : Model) : List Row :=
  ((db.table? m.tableName).map Table.rows).getD []

namespace Database

variable {good : Json → Prop} {models : List Model} {held held' : Model → Int64 → Prop}
variable {db db' : Database} {m : Model} {t : Table}

theorem rowsOf_of_table (ht : db.table? m.tableName = some t) : db.rowsOf m = t.rows := by
  rw [rowsOf, ht]
  rfl

/-- Every model has a table of its own, which counts the keys that it held. -/
structure Counts (good : Json → Prop) (models : List Model) (held : Model → Int64 → Prop)
    (db : Database) : Prop where
  hosts : db.Hosts good models
  table : ∀ m ∈ models, ∀ t, db.table? m.tableName = some t → t.Counts (held m)

theorem Counts.rows (h : db.Counts good models held) (hm : m ∈ models) :
    ∀ row ∈ db.rowsOf m, held m row.id := by
  obtain ⟨t, ht, _⟩ := h.hosts.filled m hm
  rw [rowsOf_of_table ht]
  exact (h.table m hm t ht).rows

theorem Counts.congr (h : db.Counts good models held)
    (hheld : ∀ m ∈ models, ∀ id, held' m id ↔ held m id) : db.Counts good models held' := by
  refine ⟨h.hosts, fun m hm t ht => ?_⟩
  have hcounts := h.table m hm t ht
  exact ⟨fun row hrow => (hheld m hm _).mpr (hcounts.rows row hrow),
    fun id hid => hcounts.reached id ((hheld m hm _).mp hid),
    hcounts.largest.imp_right (hheld m hm _).mpr⟩

/-- An operation on one model leaves tables that count what they hold then and held before. -/
theorem Counts.step (h : db.Counts good models held) (hd : DistinctTables models) {op : Operation}
    (hm : m ∈ models) (hwrites : m.WritesAll db db') (hhosts : db'.Hosts good models)
    (haffects : op.Affects m db db') :
    db'.Counts good models fun other id =>
      (∃ row ∈ db'.rowsOf other, row.id = id) ∨ held other id := by
  refine ⟨hhosts, fun other hother t' ht' => ?_⟩
  rw [rowsOf_of_table ht']
  obtain ⟨t, ht, hfilled⟩ := h.hosts.filled other hother
  have hcounts := h.table other hother t ht
  by_cases heq : other = m
  · subst heq
    obtain ⟨u, hu, _, heffect⟩ := haffects t ht hfilled.own
    cases hu.symm.trans ht'
    obtain ⟨v, hv, hfilled'⟩ := hhosts.filled other hother
    cases hv.symm.trans ht'
    refine ⟨fun row hrow => .inl ⟨row, hrow, rfl⟩, ?_, ?_⟩
    · rintro id (⟨row, hrow, rfl⟩ | hid)
      · exact hfilled'.bounded.rows row hrow
      · exact Int.le_trans (hcounts.reached id hid) heffect.sequence
    · rcases heffect.reached with hsame | ⟨_, hreached⟩
      · rw [hsame]
        exact hcounts.largest.imp_right .inr
      · exact .inr (.inl hreached)
  · have hsame := hwrites.table?_of_ne (hd.apart hm hother (Ne.symm heq))
    cases (ht'.symm.trans hsame).trans ht
    refine ⟨fun row hrow => .inl ⟨row, hrow, rfl⟩, ?_, hcounts.largest.imp_right .inr⟩
    rintro id (⟨row, hrow, rfl⟩ | hid)
    · exact hcounts.reached _ (hcounts.rows row hrow)
    · exact hcounts.reached id hid

end Database

namespace Session

variable {good : Json → Prop} {s s' : Session} {held held' : Model → Int64 → Prop}
variable {db db' : Database} {m : Model} {location : Location}

/-- The rows that the open database has for a model. -/
def rowsOf (s : Session) (m : Model) : List Row := (s.database?.map (·.rowsOf m)).getD []

theorem rowsOf_of_database (hdb : s.database? = some db) : s.rowsOf m = db.rowsOf m := by
  rw [rowsOf, hdb]
  rfl

/-- An event makes a new database: one in memory, in place of the one that there was. -/
def Renews (s : Session) (event : Event) : Prop :=
  event = .init ∧ (Location.ofUri s.config.uri = .ok .memory ∨
    ∃ path, Location.ofUri s.config.uri = .ok (.file path) ∧ Target.ofPath path = .ok .own)

/-- A serving session, with the keys that rows of its models have had since its database was
created. -/
inductive Remembers (good : Json → Prop) : Session → (Model → Int64 → Prop) → Prop
  | opened {s s' : Session} (h : s.Reachable) (hd : DistinctTables s.registry.models)
      (hg : ∀ m ∈ s.registry.models, m.GoodDefaults good) (ho : s.OpensFresh s') :
      Remembers good s' fun _ _ => False
  | after {s : Session} {held : Model → Int64 → Prop} {event : Event} (h : Remembers good s held)
      (he : event.Brings good s.registry.models) : Remembers good (s.after event) fun m id =>
        (∃ row ∈ (s.after event).rowsOf m, row.id = id) ∨ held m id ∧ ¬ s.Renews event

theorem Remembers.serving (h : Remembers good s held) : Serving good s := by
  induction h with
  | opened h hd hg ho => exact .opened h hd hg ho
  | after _ he ih => exact ih.after he

/-- Every serving session has such keys. -/
theorem Serving.remembers (h : Serving good s) : ∃ held, Remembers good s held := by
  induction h with
  | opened h hd hg ho => exact ⟨_, .opened h hd hg ho⟩
  | after _ he ih =>
    obtain ⟨held, hheld⟩ := ih
    exact ⟨_, hheld.after he⟩

/-- New tables count from zero. -/
theorem counts_of_creation {planner : Planner} {models : List Model} (hd : DistinctTables models)
    (h : (models.forM createTable : Action Unit) (.empty planner) = .ok () db) (good : Json → Prop) :
    db.Counts good models fun _ _ => False := by
  have hempty : NewFor models (.empty planner) := fun t ht => absurd ht List.not_mem_nil
  have hnew := createTables_newFor (fun _ hm => hm) h hempty
  refine ⟨hosts_of_creation hd h good, fun m hm t ht => ?_⟩
  obtain ⟨hrows, hsequence, _⟩ := hnew t (Database.table?_mem ht)
  refine ⟨fun row hrow => ?_, nofun, .inl hsequence⟩
  rw [hrows] at hrow
  exact absurd hrow List.not_mem_nil

/-- The rows that the open database has are held. -/
theorem Located.rows {models : List Model}
    (hl : s.Located (·.Counts good models held) location) (hm : m ∈ models) :
    ∀ row ∈ s.rowsOf m, held m row.id := by
  intro row hrow
  cases hopen : s.database? with
  | none =>
    rw [rowsOf, hopen] at hrow
    exact absurd hrow List.not_mem_nil
  | some db =>
    rw [rowsOf_of_database hopen] at hrow
    exact (hl.holds hopen).rows hm row hrow

/-- These rows may be added to what was held. -/
theorem Located.add_rows {models : List Model}
    (hl : s.Located (·.Counts good models held) location)
    (hheld : ∀ m ∈ models, ∀ id,
      held' m id ↔ (∃ row ∈ s.rowsOf m, row.id = id) ∨ held m id) :
    s.Located (·.Counts good models held') location := by
  refine hl.imp fun db hdb => hdb.congr fun m hm id => ?_
  rw [hheld m hm id]
  refine ⟨fun hid => hid.elim ?_ fun hid => hid, .inr⟩
  rintro ⟨row, hrow, rfl⟩
  exact hl.rows hm row hrow

/-- What an operation leaves, wherever the data are. -/
theorem Served.counts_perform (h : s.Served good) {op : Operation}
    (hop : op.Brings good s.registry.models)
    (hl : s.Located (·.Counts good s.registry.models held) location) :
    (stateOf (Session.perform op s)).Located (·.Counts good s.registry.models fun m id =>
      (∃ row ∈ (stateOf (Session.perform op s)).rowsOf m, row.id = id) ∨ held m id) location := by
  rcases hl.stateOf_perform_cases h.reachable op fun m hm hname =>
    (Operation.covers_hosts h.distinct hm hname hop).and (Operation.covers_affects m op) with
    heq | ⟨db, db', hdb, heq, m, hm, hwrites, hhosts, haffects⟩
  · rw [heq]
    exact hl.add_rows fun _ _ _ => Iff.rfl
  · have hcounts := hl.holds hdb
    have hstep := hcounts.step h.distinct hm hwrites (hhosts hcounts.hosts) haffects
    rw [heq]
    refine (hl.setDatabase hdb hstep).imp fun _ hafter => hafter.congr fun other _ id => ?_
    rw [rowsOf_of_database (setDatabase_database? hdb)]

/-- What any event leaves, wherever the data are. -/
theorem Served.counts_after (h : s.Served good) {event : Event}
    (he : event.Brings good s.registry.models)
    (huri : Location.ofUri s.config.uri = .ok location)
    (hl : s.Located (·.Counts good s.registry.models held) location) :
    (s.after event).Located (·.Counts good s.registry.models fun m id =>
      (∃ row ∈ (s.after event).rowsOf m, row.id = id) ∨ held m id ∧ ¬ s.Renews event) location := by
  have hkept (hne : event ≠ .init) (m : Model) (id : Int64) :
      held m id ∧ ¬ s.Renews event ↔ held m id := and_iff_left fun hrenews => hne hrenews.1
  cases event with
  | init =>
    obtain ⟨db, hcreated⟩ := h.created
    have hcounts := counts_of_creation h.distinct hcreated good
    have hrenewed (hnew : (stateOf (init s)).Located
        (·.Counts good s.registry.models fun _ _ => False) location) (hrenews : s.Renews .init) :
        (stateOf (init s)).Located (·.Counts good s.registry.models fun m id =>
          (∃ row ∈ (stateOf (init s)).rowsOf m, row.id = id) ∨ held m id ∧ ¬ s.Renews .init)
          location :=
      hnew.add_rows fun _ _ _ => or_congr_right (iff_of_false (fun hid => hid.2 hrenews) not_false)
    cases location with
    | memory => exact hrenewed (located_of_init_memory huri hcreated hcounts) ⟨rfl, .inl huri⟩
    | file path =>
      by_cases hown : s.files.DenotesOwn path
      · exact hrenewed (located_of_init_own huri hown hcreated hcounts)
          ⟨rfl, .inr ⟨path, huri, hown.target⟩⟩
      · have hshared : Target.ofPath path ≠ .ok .own := by
          intro htarget
          obtain ⟨_, _, hleads, _⟩ | ⟨hdenotes, _⟩ := hl
          · obtain ⟨_, hfile, _⟩ := hleads.follow
            cases hfile.symm.trans htarget
          · exact hown hdenotes
        have hfile := hl.reopen huri (fun htarget => absurd htarget hshared)
          fun _ hcounts _ hm => hcounts.hosts.tables hm
        refine hfile.add_rows fun m hm id => or_congr_right (and_iff_left ?_)
        rintro ⟨_, hmemory | ⟨_, hpath, htarget⟩⟩
        · cases huri.symm.trans hmemory
        · cases huri.symm.trans hpath
          exact hshared htarget
  | close =>
    exact hl.close.add_rows fun m _ id => or_congr_right (hkept nofun m id)
  | operation op =>
    exact (h.counts_perform he hl).imp fun _ hdb => hdb.congr fun m _ id =>
      or_congr_right (hkept nofun m id)
  | command c =>
    show (stateOf (c.run s)).Located (·.Counts good s.registry.models fun m id =>
      (∃ row ∈ (stateOf (c.run s)).rowsOf m, row.id = id) ∨ _) location
    rcases stateOf_command_cases c s with heq | ⟨op, hop, heq⟩
    · rw [heq]
      exact hl.add_rows fun m _ id => or_congr_right (hkept nofun m id)
    · rw [heq]
      exact (h.counts_perform (he _ op hop) hl).imp fun _ hdb => hdb.congr fun m _ id =>
        or_congr_right (hkept nofun m id)

/-- Wherever the data of a session are, every table counts the keys that it held. -/
theorem Remembers.located (h : Remembers good s held) : ∃ location,
    Location.ofUri s.config.uri = .ok location ∧
      s.Located (·.Counts good s.registry.models held) location := by
  induction h with
  | opened h hd hg ho =>
    obtain ⟨hsetup, location, db, huri, htables, hlocated⟩ := ho.located
    exact ⟨location, hsetup.config ▸ huri,
      hsetup.registry ▸ hlocated _ (counts_of_creation hd htables good)⟩
  | @after s held event h he ih =>
    obtain ⟨location, huri, hl⟩ := ih
    have hsetup := sameSetup_after s event
    exact ⟨location, hsetup.config ▸ huri,
      hsetup.registry ▸ h.serving.served.counts_after he huri hl⟩

/-- In the open database every model has a table that is filled from its records and counts the keys
that it held. -/
theorem Remembers.table (h : Remembers good s held) (hdb : s.database? = some db)
    (hm : m ∈ s.registry.models) :
    ∃ t, db.table? m.tableName = some t ∧ m.Filled good t ∧ t.Counts (held m) := by
  obtain ⟨_, _, hl⟩ := h.located
  have hcounts := hl.holds hdb
  obtain ⟨t, ht, hfilled⟩ := hcounts.hosts.filled m hm
  exact ⟨t, ht, hfilled, hcounts.table m hm t ht⟩

end Session

end RecordStore
