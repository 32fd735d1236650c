import RecordStore.Proofs.Session.Batches
import RecordStore.Proofs.Session.Lookup
import RecordStore.Proofs.Session.Typing
import RecordStore.Proofs.Session.Upsert

/-!
# Records identify themselves

The members of a record that was read are stored as the cells that they were read from, and its key is
the key of no other row. So a search for all of its members finds its row alone, whether it is listed
by equality with each of them or given to an upsert, which then has nothing to create and nothing to
change. A record of so many members that a condition on all of them has too many levels is not
searched for at all.
-/

namespace RecordStore

namespace Session

variable {s s' : Session} {m : Model} {db : Database} {t : Table} {row : Row}

/-- A record stands for itself: it is all that is listed by equality with each of its members, and an
upsert of it answers with it and changes nothing. If it has as many members as a condition may have
levels, or more, both are refused. -/
structure Identifies (s : Session) (m : Model) (record : Record) : Prop where
  listed : s.Bounded (.list m.name ⟨some (Filter.equalities record), none, none, none⟩)
    (record.length < levelLimit)
    (s.answer (.list m.name ⟨some (Filter.equalities record), none, none, none⟩) =
      .ok (.records [record]))
  upserted : s.Bounded (.upsert m.name record []) (record.length < levelLimit)
    (∃ s', perform (.upsert m.name record []) s = .ok (.upserted record false) s' ∧ s.SameData s')

/-- The record of a row may be given to an upsert. -/
theorem UpsertArguments.ofRow (hown : m.OwnTable t) (hrow : row ∈ t.rows)
    (htyped : m.Typed Json.Proper row) :
    UpsertArguments m (m.recordOf row) [] (m.namedCells row) [] where
  sought := (Model.shows_recordOf hown hrow htyped).cells
  changes := rfl
  distinct := by
    rw [List.append_nil]
    exact hown.recordOf_distinct hrow
  exact _ hf hfloat _ hn := htyped.exact hown hrow hf hfloat hn

/-- A row is the only one of its table that has all members of its record. -/
theorem rowsWith_recordOf (hfilled : m.Filled Json.Proper t) (hd : m.GoodDefaults Json.Proper)
    (hrow : row ∈ t.rows) : m.rowsWith (m.recordOf row) t = [row] := by
  have htyped := hfilled.typed hd
  have ha := UpsertArguments.ofRow hfilled.own hrow (htyped row hrow)
  have hfound {other : Row} : other ∈ m.rowsWith (m.recordOf row) t ↔
      other ∈ t.rows ∧ m.Matches (m.namedCells row) other :=
    Model.mem_rowsWith hfilled.own htyped ha.sought ha.exact
  have hself := hfound.mpr ⟨hrow, Model.matches_namedCells hfilled.own hrow (htyped row hrow)⟩
  refine hfilled.own.sorted.filter_eq_singleton hrow (List.mem_filter.mp hself).2 ?_
  intro other hother hmeaning
  exact (hfound.mp (List.mem_filter.mpr ⟨hother, hmeaning⟩)).2.id

/-- The names in the record of a row are those of columns. -/
theorem recordOf_isIdentifier (hvalid : m.validate = .ok ()) (row : Row) :
    ∀ member ∈ m.recordOf row, isIdentifier member.1 = true := by
  intro member hmember
  obtain ⟨entry, hentry, rfl⟩ := List.mem_map.mp hmember
  exact (Model.validate_isIdentifier hvalid).2 _ (List.of_mem_zip hentry).1

theorem Offers.identifies (h : s.Offers m db t) (hfilled : m.Filled Json.Proper t)
    (hd : m.GoodDefaults Json.Proper) (hrow : row ∈ t.rows) : s.Identifies m (m.recordOf row) := by
  have ha := UpsertArguments.ofRow h.own hrow (hfilled.typed hd row hrow)
  have hone := rowsWith_recordOf hfilled hd hrow
  obtain ⟨condition, hcondition⟩ := Model.restriction_matching ha.sought
  have hfits : (m.selectWhere condition none).Fits ↔ (m.recordOf row).length < levelLimit := by
    rw [Model.fits_selectWhere, and_iff_right h.own.narrow]
    exact Model.fit_matching hcondition (by decide) none
  have hfilter : m.conditionFor (some (Filter.equalities (m.recordOf row))) = .ok condition := by
    have hread := Filter.ofJson_equalities
      (recordOf_isIdentifier (h.registry.valid m h.mem) row)
    rw [Model.conditionFor, Operation.filterOf_eq_ok hread, ok_bind, hcondition]
  refine ⟨⟨fun hfew => ?_, fun hmany => (h.views .read).list_exceeds hfilter (mt hfits.mp hmany)⟩,
    fun hfew => ?_, h.upsert_exceeds ha⟩
  · obtain ⟨other, hother, _, hmatching⟩ := h.exists_search ha hfew
    cases hcondition.symm.trans hother
    rw [h.answer_list hfilter (hfits.mpr hfew),
      db.planner.visit_of_singleton (hmatching.trans hone)]
    rfl
  · exact h.upsert_unchanged ha hfew hone fun _ hchange => absurd hchange List.not_mem_nil

/-- In a serving session that is open and whose connections reach the same database, the record of
every row stands for itself. -/
theorem Serving.identifies (h : Serving Json.Proper s) (hj : s.Joint) (hr : s.router.Connected)
    (hdb : s.database? = some db) (hm : m ∈ s.registry.models)
    (ht : db.table? m.tableName = some t) (hrow : row ∈ t.rows) : s.Identifies m (m.recordOf row) := by
  obtain ⟨t', ht', hfilled⟩ := (h.hosts hdb).filled m hm
  cases ht.symm.trans ht'
  have hoffers : s.Offers m db t := ⟨h.served.reachable.proper, h.served.reachable.registry_proper,
    hj, hr, hm, hdb, ht, hfilled.own⟩
  exact hoffers.identifies hfilled (h.served.defaults m hm) hrow

/-- In a serving session whose connections reach the same database, every record that is read stands
for itself. So does every record that another operation answers with, in the session that the
operation leaves. -/
theorem answers_identify_themselves (h : Serving Json.Proper s) (hj : s.Joint)
    (hr : s.router.Connected) {op : Operation} {answer : Answer}
    (hperform : perform op s = .ok answer s') :
    ∃ m, s.registry.get op.model = .ok m ∧
      (op.access = .read → ∀ record ∈ answer.shown, s.Identifies m record) ∧
      (op.Brings Json.Proper s.registry.models →
        ∀ record ∈ answer.shown, s'.Identifies m record) := by
  obtain ⟨m, plan, db, db', hplan, hdb, haction, _, rfl⟩ := hj.perform_eq_ok hperform
  obtain ⟨hget, hplanOn⟩ := plan_eq_ok hplan
  have hm := h.served.reachable.registry_proper.get_mem hget
  have hyields := Operation.planOn_yields hplanOn haction
  refine ⟨m, hget, fun hread record hrecord => ?_, fun hop record hrecord => ?_⟩
  · have hkeeps := Operation.planOn_keeps (Operation.covers_writesAll m op) hplanOn
    obtain rfl : db = db' := hkeeps.reads ((Model.planOn_access hplanOn).trans hread) haction
    obtain ⟨t, ht, hfilled⟩ := (h.hosts hdb).filled m hm
    obtain ⟨t', ht', hrows⟩ := hyields record hrecord
    cases ht.symm.trans ht'
    obtain ⟨row, hrow, rfl⟩ := hrows hfilled.own
    exact h.identifies hj hr hdb hm ht hrow
  · have hbrings : (Event.operation op).Brings Json.Proper s.registry.models := hop
    have hafter := h.after hbrings
    rw [Session.after, hperform] at hafter
    have hsetup := sameSetup_setDatabase s db'
    have hdb' : (s.setDatabase db').database? = some db' := setDatabase_database? hdb
    have hm' : m ∈ (s.setDatabase db').registry.models := hsetup.registry ▸ hm
    obtain ⟨t, ht, hfilled⟩ := (hafter.hosts hdb').filled m hm'
    obtain ⟨t', ht', hrows⟩ := hyields record hrecord
    cases ht.symm.trans ht'
    obtain ⟨row, hrow, rfl⟩ := hrows hfilled.own
    exact hafter.identifies (joint_setDatabase.mpr hj) (hsetup.router ▸ hr) hdb' hm' ht hrow

/-- The first note, with its tags, is found by its title and stands for itself. -/
theorem first_note_identifies : ∃ record s',
    perform (.find "Note" "title" (.string "a")) noteSession = .ok (.record record) s' ∧
      noteSession.Identifies noteModel record := by
  obtain ⟨record, s', hperform⟩ : ∃ record s',
      perform (.find "Note" "title" (.string "a")) noteSession = .ok (.record record) s' :=
    ⟨_, _, rfl⟩
  obtain ⟨m, hget, hread, _⟩ :=
    answers_identify_themselves serving_noteSession rfl Router.connected_default hperform
  obtain rfl : noteModel = m := Except.ok.inj hget
  exact ⟨record, s', hperform, hread rfl record (List.mem_singleton_self record)⟩

end Session

end RecordStore
