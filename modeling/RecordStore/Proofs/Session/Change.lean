import RecordStore.Proofs.Session.BatchChanges
import RecordStore.Proofs.Session.Typing
import RecordStore.Proofs.Model.Change

/-!
# Changing a record is exact

In a serving session a change of the record with a given key finds no record exactly if there is none
with this key. It is refused exactly if it repeats a value of a unique field in another record.
Otherwise it answers with the old record, in which what is given replaces what was there, and this is
what is read by the key afterwards; every other record stays as it is, and so does the counter of
every table. Changes without members take the same course, although no statement is run for them.
-/

namespace RecordStore

namespace Model

variable {m : Model} {db : Database} {t t' : Table} {row : Row} {id : Int64}
variable {changes : Record} {cells : List (String × SqlValue)}

/-- No record has a key exactly if no row has it. -/
theorem keyOf_ne_iff : (∀ record ∈ t.rows.map m.recordOf, keyOf record ≠ .ok id) ↔
    ∀ row ∈ t.rows, row.id ≠ id := by
  simp only [List.forall_mem_map, keyOf_recordOf, ne_eq, Except.ok.injEq]

/-- The statement of a change by a key, if there is anything to change. -/
def updateStatement (m : Model) (cells : List (String × SqlValue)) (id : Int64) : Option Update :=
  if cells = [] then none else some ⟨m.tableName, cells, (m.selectById id).condition⟩

theorem planOn_updateStatement (name : String) (hc : m.encode false changes = .ok cells)
    (id : Int64) : (Operation.update name id changes).planOn m =
      .ok ⟨.write, .record <$> m.updateAction (m.updateStatement cells id) id⟩ := by
  by_cases hne : cells = []
  · simp only [Operation.planOn, Operation.cellsOf, hc, mapError_ok, ok_bind, updateStatement,
      if_pos hne]
    rfl
  · rw [planOn_update hc hne, updateStatement, if_neg hne]

section
variable (hown : m.OwnTable t) (ht : db.table? m.tableName = some t)
variable (hc : m.encode false changes = .ok cells)
variable (hk : Json.DistinctKeys changes)
include hown ht hc hk

/-- No row is changed, and no row is found. -/
theorem updateAction_absent (hdb : db.DistinctNames) (h : ∀ row ∈ t.rows, row.id ≠ id) :
    m.updateAction (m.updateStatement cells id) id db = .error .recordNotFound db := by
  apply Action.transaction_eq_error db
  by_cases hne : cells = []
  · rw [updateStatement, if_pos hne]
    exact fetchById_of_absent hown ht _ h
  · have hupdated : t.update cells (m.selectById id).condition = .ok (t, 0) := by
      rw [Table.update_eq_ok_iff (hown.hasColumn_of_encode hc), matching_of_absent h]
      exact ⟨rfl, rfl⟩
    have hstatement : db.update ⟨m.tableName, cells, (m.selectById id).condition⟩ = .ok (db, 0) :=
      Database.update_eq_ok.mpr
        ⟨fits_update_of_encode hown.narrow hk hc id, t, t, ht, hupdated,
          (Database.setTable_table? hdb ht).symm⟩
    rw [updateStatement, if_neg hne]
    exact runBind_eq_error.mpr (.inr ⟨0, db, Action.change_eq_ok.mpr hstatement, rfl⟩)

variable (hrow : row ∈ t.rows)
include hrow

/-- The row with the key is changed. -/
theorem updateAction_changed (hdb : db.DistinctNames)
    (hstep : Table.updateRow cells t row = .ok t') :
    m.updateAction (m.updateStatement cells row.id) row.id db =
      .ok (m.recordOf (t.changed cells row)) (db.setTable t') := by
  by_cases hne : cells = []
  · have hunchanged : t' = t := by
      rw [Table.updateRow_of_no_id (hown.assigned?_id hc) hown.sorted ⟨row, hrow, rfl⟩ hstep]
      refine (Table.mapRows_congr fun other hother => ?_).trans t.mapRows_id
      split
      next hid =>
        rw [hown.changed_nil hc hne hrow]
        exact hown.sorted.eq_of_id hrow hother hid.symm
      next => rfl
    rw [hunchanged, Database.setTable_table? hdb ht, hown.changed_nil hc hne hrow, updateStatement,
      if_pos hne]
    exact Action.transaction_eq_ok.mpr (fetchById_of_mem hown ht .updatingRecord hrow)
  · obtain ⟨plan, hplan, haction⟩ : m.Performs (.update m.name row.id changes) db _ _ :=
      performs_update hown ht hc hne hk hrow hstep
    cases (planOn_updateStatement m.name hc row.id).symm.trans hplan
    obtain ⟨record, hrun, heq⟩ := runMap_eq_ok.mp haction
    cases heq
    exact hrun

/-- The row with the key may not be changed so. -/
theorem updateAction_refused {cause : DatabaseFault}
    (hstep : Table.updateRow cells t row = .error cause) :
    m.updateAction (m.updateStatement cells row.id) row.id db =
      .error (.operation (.failed .updatingRecord cause)) db := by
  have hupdated : t.update cells (m.selectById row.id).condition = .error cause := by
    rw [Table.update, Table.find?_unknown_eq_none (hown.hasColumn_of_encode hc)]
    simp only [matching_byId hown.sorted hrow, List.foldlM_cons, hstep, error_bind]
  have hne := hown.ne_nil_of_refused hc hupdated
  have hfits := fits_update_of_encode hown.narrow hk hc row.id
  apply Action.transaction_eq_error db
  rw [updateStatement, if_neg hne]
  refine runBind_eq_error.mpr (.inl ?_)
  exact Action.change_eq_error.mpr ⟨cause, Database.update_refused hfits ht hupdated, rfl, rfl⟩

end

end Model

namespace Session

variable {s s' : Session} {m : Model} {db : Database} {t t' : Table} {row : Row} {id : Int64}
variable {changes : Record} {cells : List (String × SqlValue)} {all : List Record}

/-- The counter of the table of a model. -/
def counterOf (s : Session) (m : Model) : Option Int64 :=
  (s.database?.bind fun db => db.table? m.tableName).map Table.sequence

/-- What the change of the record with a key does in a session, given all records of the model. -/
structure Changes (s : Session) (m : Model) (all : List Record) (id : Int64) (changes : Record) :
    Prop where
  notFound : (∃ s', perform (.update m.name id changes) s = .error .recordNotFound s') ↔
    ∀ record ∈ all, Model.keyOf record ≠ .ok id
  refused : (∃ record ∈ all, Model.keyOf record = .ok id) →
    ((∃ cause s', perform (.update m.name id changes) s = .error (.operation cause) s') ↔
      m.Repeats all id changes)
  /-- One record is changed, which is answered, and read by its key afterwards. -/
  changed : ∀ old ∈ all, Model.keyOf old = .ok id → ¬ m.Repeats all id changes → ∃ new s',
    perform (.update m.name id changes) s = .ok (.record new) s' ∧ m.Replaces changes old new ∧
      s'.answer (.get m.name id) = .ok (.record new) ∧
      s'.everythingOf m.name =
        .ok (.records (all.map fun record => if record = old then new else record)) ∧
      (∀ other ∈ s.registry.models, other ≠ m →
        s'.everythingOf other.name = s.everythingOf other.name) ∧
      ∀ other, s'.counterOf other = s.counterOf other
  failed : ∀ e s', perform (.update m.name id changes) s = .error e s' → s.SameData s'

namespace Offers

variable (h : s.Offers m db t)
include h

/-- Another table of the model with the same counter leaves all counters as they are. -/
theorem counterOf_setTable (hname : t'.name = t.name) (hsequence : t'.sequence = t.sequence)
    (other : Model) :
    (s.setDatabase (db.setTable t')).counterOf other = s.counterOf other := by
  rw [counterOf, counterOf, setDatabase_database? h.database, h.database, Option.bind_some,
    Option.bind_some]
  by_cases hsame : sameName t'.name other.tableName = true
  · have hnames : sameName m.tableName other.tableName = true := by
      rw [hname] at hsame
      rwa [← sameName_congr (Database.table?_name h.table)]
    have htable : db.table? other.tableName = some t := by
      rw [← Database.table?_congr hnames, h.table]
    rw [htable, Database.table?_setTable_self htable hsame, Option.map_some, Option.map_some,
      hsequence]
  · rw [Database.table?_setTable_of_ne (by simpa using hsame)]

variable (hc : m.encode false changes = .ok cells) (hk : Json.DistinctKeys changes)
include hc hk

theorem update_absent (habsent : ∀ row ∈ t.rows, row.id ≠ id) :
    perform (.update m.name id changes) s = .error .recordNotFound (s.setDatabase db) := by
  have haction := Model.updateAction_absent h.own h.table hc hk (h.proper.database h.database) habsent
  exact h.perform_eq_error rfl (Model.planOn_updateStatement m.name hc id)
    (runMap_eq_error.mpr haction)

theorem update_row_refused (hrow : row ∈ t.rows) {cause : DatabaseFault}
    (hstep : Table.updateRow cells t row = .error cause) :
    perform (.update m.name row.id changes) s =
      .error (.operation (.failed .updatingRecord cause)) (s.setDatabase db) := by
  have haction := Model.updateAction_refused h.own h.table hc hk hrow hstep
  exact h.perform_eq_error rfl (Model.planOn_updateStatement m.name hc row.id)
    (runMap_eq_error.mpr haction)

theorem update_row_changed (hrow : row ∈ t.rows) (hstep : Table.updateRow cells t row = .ok t') :
    perform (.update m.name row.id changes) s =
      .ok (.record (m.applied changes (m.recordOf row))) (s.setDatabase (db.setTable t')) := by
  have haction := Model.updateAction_changed h.own h.table hc hk hrow
    (h.proper.database h.database) hstep
  rw [h.own.recordOf_changed hc] at haction
  exact h.perform_eq_ok rfl (Model.planOn_updateStatement m.name hc row.id)
    (runMap_eq_ok.mpr ⟨_, haction, rfl⟩)

omit hk in
/-- The table after the change of a row: this row is changed where it stands. -/
theorem records_of_step (hrow : row ∈ t.rows) (hstep : Table.updateRow cells t row = .ok t') :
    t'.sequence = t.sequence ∧ t.changed cells row ∈ t'.rows ∧
      t'.rows.map m.recordOf = (t.rows.map m.recordOf).map fun record =>
        if record = m.recordOf row then m.applied changes (m.recordOf row) else record := by
  rw [Table.updateRow_of_no_id (h.own.assigned?_id hc) h.own.sorted ⟨row, hrow, rfl⟩ hstep]
  refine ⟨rfl, List.mem_map.mpr ⟨row, hrow, if_pos rfl⟩, ?_⟩
  rw [Table.mapRows, List.map_map, List.map_map]
  refine List.map_congr_left fun other hother => ?_
  simp only [Function.comp_apply]
  by_cases hid : other.id = row.id
  · rw [h.own.sorted.eq_of_id hother hrow hid, if_pos rfl, if_pos rfl, h.own.recordOf_changed hc]
  · rw [if_neg hid, if_neg fun heq => hid (Model.id_of_recordOf heq)]

theorem changes_of_absent (habsent : ∀ row ∈ t.rows, row.id ≠ id) :
    s.Changes m (t.rows.map m.recordOf) id changes := by
  have hperform := h.update_absent hc hk habsent
  have hnone : ∀ record ∈ t.rows.map m.recordOf, Model.keyOf record ≠ .ok id :=
    Model.keyOf_ne_iff.mpr habsent
  refine ⟨iff_of_true ⟨_, hperform⟩ hnone, ?_, ?_, fun e s' herror => ?_⟩
  · rintro ⟨record, hrecord, hkey⟩
    exact absurd hkey (hnone record hrecord)
  · exact fun record hrecord hkey => absurd hkey (hnone record hrecord)
  · cases herror.symm.trans hperform
    exact setDatabase_sameData h.database

theorem changes_of_refused (hrow : row ∈ t.rows) {cause : DatabaseFault}
    (hstep : Table.updateRow cells t row = .error cause)
    (hrepeats : m.Repeats (t.rows.map m.recordOf) row.id changes) :
    s.Changes m (t.rows.map m.recordOf) row.id changes := by
  have hperform := h.update_row_refused hc hk hrow hstep
  refine ⟨iff_of_false ?_ fun hnone => Model.keyOf_ne_iff.mp hnone row hrow rfl,
    fun _ => iff_of_true ⟨_, _, hperform⟩ hrepeats, fun _ _ _ hfree => absurd hrepeats hfree,
    fun e s' herror => ?_⟩
  · rintro ⟨s', herror⟩
    cases herror.symm.trans hperform
  · cases herror.symm.trans hperform
    exact setDatabase_sameData h.database

theorem changes_of_step (hd : DistinctTables s.registry.models)
    (hg : m.Admits Json.Proper changes) (hrow : row ∈ t.rows)
    (hstep : Table.updateRow cells t row = .ok t')
    (hfree : ¬ m.Repeats (t.rows.map m.recordOf) row.id changes) :
    s.Changes m (t.rows.map m.recordOf) row.id changes := by
  have hperform := h.update_row_changed hc hk hrow hstep
  obtain ⟨hown, hname, _⟩ := h.own.updateRow hc hrow hstep
  obtain ⟨hsequence, hchanged, hrecords⟩ := h.records_of_step hc hrow hstep
  refine ⟨iff_of_false ?_ fun hnone => Model.keyOf_ne_iff.mp hnone row hrow rfl,
    fun _ => iff_of_false ?_ hfree, ?_, fun e s' herror => ?_⟩
  · rintro ⟨s', herror⟩
    cases herror.symm.trans hperform
  · rintro ⟨cause, s', herror⟩
    cases herror.symm.trans hperform
  · intro old hold hkey _
    obtain ⟨other, hother, rfl⟩ := List.mem_map.mp hold
    rw [Model.keyOf_recordOf, Except.ok.injEq] at hkey
    obtain rfl := h.own.sorted.eq_of_id hother hrow hkey
    have hoffers := h.setTable hname hown
    have hfetch : m.fetchById .fetchingRecord other.id (db.setTable t') =
        .ok (m.recordOf (t.changed cells other)) (db.setTable t') :=
      Model.fetchById_of_mem hown hoffers.table .fetchingRecord hchanged
    rw [h.own.recordOf_changed hc] at hfetch
    obtain ⟨s'', hperform', hall, hothers⟩ := h.leaves hd rfl hperform hname hown
    cases hperform.symm.trans hperform'
    rw [hrecords] at hall
    exact ⟨_, _, hperform, Model.applied_replaces hk h.own hc hg hrow,
      hoffers.answer_eq_ok rfl rfl (runMap_eq_ok.mpr ⟨_, hfetch, rfl⟩), hall, hothers,
      h.counterOf_setTable hname hsequence⟩
  · cases herror.symm.trans hperform

theorem changes_of_mem (hd : DistinctTables s.registry.models) (hfilled : m.Filled Json.Proper t)
    (hdefaults : m.GoodDefaults Json.Proper)
    (hg : m.Admits Json.Proper changes) (hrow : row ∈ t.rows) :
    s.Changes m (t.rows.map m.recordOf) row.id changes := by
  have haccepted := Model.updateRow_isOk_iff hfilled hdefaults hk hg hc hrow
  cases hstep : Table.updateRow cells t row with
  | error cause =>
    refine h.changes_of_refused hc hk hrow hstep ?_
    by_contra hfree
    obtain ⟨t', ht'⟩ := haccepted.mpr hfree
    cases hstep.symm.trans ht'
  | ok t' => exact h.changes_of_step hc hk hd hg hrow hstep (haccepted.mp ⟨t', hstep⟩)

end Offers

/-- In a serving session that is open and whose connections reach the same database, a change of the
record with a key does exactly what it says. -/
theorem update_exact (h : Serving Json.Proper s) (hopen : s.isClosed = false)
    (hj : s.Joint) (hr : s.router.Connected) (hm : m ∈ s.registry.models)
    (hk : Json.DistinctKeys changes)
    (hg : m.Admits Json.Proper changes) (hc : m.encode false changes = .ok cells)
    (id : Int64) :
    ∃ all, s.everythingOf m.name = .ok (.records all) ∧ s.Changes m all id changes := by
  obtain ⟨db, t, hoffers, hfilled⟩ := h.offers hopen hj hr hm
  refine ⟨_, hoffers.everythingOf, ?_⟩
  by_cases hfound : ∃ row ∈ t.rows, row.id = id
  · obtain ⟨row, hrow, rfl⟩ := hfound
    exact hoffers.changes_of_mem hc hk h.served.distinct hfilled (h.served.defaults m hm) hg hrow
  · exact hoffers.changes_of_absent hc hk fun row hrow hid => hfound ⟨row, hrow, hid⟩

/-- A session with two persons of different names. -/
def pairSession : Session :=
  (personSession.after (.operation (.create "Person" [("name", .string "Ann")]))).after
    (.operation (.create "Person" [("name", .string "Bob")]))

/-- The records of the two persons. -/
def pairRecords : List Record :=
  [[("_id", .ofInt64 1), ("name", .string "Ann")], [("_id", .ofInt64 2), ("name", .string "Bob")]]

/-- The double next to `0.9803589411742921`, and the one below it. -/
def shade (below : Bool) : Binary64 :=
  ⟨false, if below then 8830288324323751 else 8830288324323752, 1021, by cases below <;> decide⟩

/-- The tags of the first note become a double whose text is read as the double below it, and this one
is what the note shows. -/
theorem update_shows_lower_double : ∃ new s',
    perform (.update "Note" 1 [("tags", .number (.float (shade false)))]) noteSession =
      .ok (.record new) s' ∧
    Json.member? new "tags" = some (.number (.float (shade true))) ∧
    ¬ FieldKind.json.Keeps (.number (.float (shade false))) (.number (.float (shade true))) := by
  have hread : FieldKind.json.decode (.text (Json.number (.float (shade false))).text) =
      .number (.float (shade true)) := by
    decide +kernel
  refine ⟨_, _, rfl, ?_, ?_⟩
  · exact congrArg some hread
  · intro hkeeps
    cases hkeeps

/-- Ann gets a new name, but not the one of Bob, and there is no third person. -/
theorem ann_renamed :
    (∃ new s', perform (.update "Person" 1 [("name", .string "Cid")]) pairSession =
        .ok (.record new) s' ∧ Json.member? new "name" = some (.string "Cid") ∧
      Json.member? new "_id" = some (.ofInt64 1) ∧
      s'.answer (.get "Person" 1) = .ok (.record new) ∧
      s'.counterOf uniquePerson = pairSession.counterOf uniquePerson) ∧
    (∃ cause s', perform (.update "Person" 1 [("name", .string "Bob")]) pairSession =
      .error (.operation cause) s') ∧
    ∃ s', perform (.update "Person" 3 [("name", .string "Bob")]) pairSession =
      .error .recordNotFound s' := by
  have hs : Serving Json.Proper pairSession := by
    refine .after (.after (serving_personSession _) ?_) ?_ <;>
      (unfold Event.Brings Operation.Brings; decide)
  have hexact (name : String) (id : Int64) :
      pairSession.Changes uniquePerson pairRecords id [("name", .string name)] := by
    have hplain : uniquePerson.Admits Json.Proper [("name", .string name)] := by
      intro _ _ f hf _ hkind
      obtain rfl := List.mem_singleton.mp hf
      cases hkind
    obtain ⟨all, hall, hchanges⟩ := update_exact hs rfl rfl Router.connected_default
      (List.mem_cons_self : uniquePerson ∈ _) (List.pairwise_singleton _ ("name", Json.string name))
      hplain rfl id
    have hpair : pairSession.everythingOf uniquePerson.name = .ok (.records pairRecords) := rfl
    cases hpair.symm.trans hall
    exact hchanges
  have hfield : (⟨"name", .text, false, true, none⟩ : Field) ∈ uniquePerson.fields :=
    List.mem_cons_self
  refine ⟨?_, ?_, ?_⟩
  · have hfree : ¬ uniquePerson.Repeats pairRecords 1 [("name", .string "Cid")] := by
      rintro ⟨f, hf, _, value, hvalue, _, shown, hkeeps, other, hother, _, hmember⟩
      obtain rfl := List.mem_singleton.mp hf
      cases hvalue
      cases hkeeps
      simp only [pairRecords, List.mem_cons, List.not_mem_nil, or_false] at hother
      rcases hother with rfl | rfl <;> exact absurd hmember (by decide)
    obtain ⟨new, s', hperform, hreplaces, hget, _, _, hcounters⟩ :=
      (hexact "Cid" 1).changed _ List.mem_cons_self rfl hfree
    obtain ⟨shown, hshown, hkeeps⟩ := hreplaces.given _ hfield _ rfl
    cases hkeeps
    exact ⟨new, s', hperform, hshown, hreplaces.kept "_id" rfl, hget, hcounters uniquePerson⟩
  · refine ((hexact "Bob" 1).refused ⟨_, List.mem_cons_self, rfl⟩).mpr ?_
    refine ⟨_, hfield, rfl, _, rfl, nofun, _, rfl, _, List.mem_cons_of_mem _ List.mem_cons_self,
      ?_, rfl⟩
    exact fun hkey => absurd (Except.ok.inj hkey) (by decide)
  · refine (hexact "Bob" 3).notFound.mpr fun record hrecord hkey => ?_
    simp only [pairRecords, List.mem_cons, List.not_mem_nil, or_false] at hrecord
    rcases hrecord with rfl | rfl <;> exact absurd (Except.ok.inj hkey) (by decide)

end Session

end RecordStore
