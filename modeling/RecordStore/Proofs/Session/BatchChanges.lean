import RecordStore.Proofs.Session.Batches
import RecordStore.Proofs.Session.Agreement
import RecordStore.Proofs.Session.Upsert

/-!
# Changing and removing several records at once

To change or remove the records of a filter is to change or remove each of them by its key, in the
order in which they are listed. The filter is looked at once, before the first row is touched, also
where the changes set the columns that it reads. The statement goes through the rows in its own order,
which makes no difference.
-/

namespace RecordStore

namespace Model

variable {m : Model} {name : String} {db db' : Database} {t t' : Table} {row : Row}
variable {changes : Record} {cells : List (String × SqlValue)}

/-! ## Removals -/

section
variable (ht : db.table? m.tableName = some t)
include ht

/-- The removal of a row by its key removes this row. -/
theorem performs_delete (hs : t.Sorted) (hrow : row ∈ t.rows) :
    m.Performs (.delete name row.id) db .done (db.setTable (t.without [row])) := by
  have hmatching : t.matching (m.selectById row.id).condition = [row] := matching_byId hs hrow
  have hplan : (Operation.delete name row.id).planOn m = .ok ⟨.write, (fun _ => .done) <$>
      deleteAction ⟨m.tableName, (m.selectById row.id).condition⟩⟩ := by
    simp only [Operation.planOn, delete, restriction_byId, ok_bind, mapError_ok]
  have hdelete : db.delete ⟨m.tableName, (m.selectById row.id).condition⟩ =
      .ok (db.setTable (t.without [row]), 1) := by
    have hfits : Fit [.symbols 9, .parameter] := by decide
    rw [← hmatching, ← Table.delete_eq_without]
    exact Database.delete_eq_ok.mpr ⟨hfits, t, ht, by rw [hmatching]; rfl, rfl⟩
  refine ⟨_, hplan, runMap_eq_ok.mpr ⟨(), ?_, rfl⟩⟩
  exact runBind_eq_ok.mpr ⟨1, _, Action.change_eq_ok.mpr hdelete, rfl⟩

theorem performs_deleteAll {value : Json} {condition : Option Clause}
    (hc : m.conditionFor (some value) = .ok condition)
    (hfits : Fit (Delete.demands ⟨m.tableName, condition⟩)) :
    m.Performs (.deleteAll name value) db (.count (t.matching condition).length)
      (db.setTable (t.without (t.matching condition))) := by
  have hplan := m.planOn_deleteAll name value
  rw [hc, map_ok, mapError_ok] at hplan
  have hdelete : db.delete ⟨m.tableName, condition⟩ =
      .ok (db.setTable (t.without (t.matching condition)), (t.matching condition).length) := by
    rw [← Table.delete_eq_without]
    exact Database.delete_eq_ok.mpr ⟨hfits, t, ht, rfl, rfl⟩
  exact ⟨_, hplan, runMap_eq_ok.mpr ⟨_, Action.change_eq_ok.mpr hdelete, rfl⟩⟩

end

/-- The removals of several rows, one after another. The induction is on the rows that are still to be
removed; they all stand in the table. -/
theorem performsAll_delete (hdb : db.DistinctNames) (ht : db.table? m.tableName = some t)
    (hs : t.Sorted) {pending : List Row} (hd : pending.Pairwise fun a b => a.id ≠ b.id)
    (hp : ∀ row ∈ pending, row ∈ t.rows) :
    m.PerformsAll (pending.map fun row => .delete name row.id) db
      (db.setTable (t.without pending)) := by
  induction pending generalizing db t with
  | nil =>
    rw [Table.without_nil, Database.setTable_table? hdb ht]
    exact .nil db
  | cons row rest ih =>
    obtain ⟨hhead, htail⟩ := List.pairwise_cons.mp hd
    have hfirst : m.Performs (.delete name row.id) db .done (db.setTable (t.without [row])) :=
      performs_delete ht hs (hp row List.mem_cons_self)
    have hsame : sameName (t.without [row]).name m.tableName :=
      (Database.table?_name ht : sameName t.name m.tableName)
    have hrest : ∀ other ∈ rest, other ∈ (t.without [row]).rows := by
      intro other hother
      have hne : other ≠ row := fun heq => hhead other hother (congrArg Row.id heq).symm
      exact List.mem_filter.mpr ⟨hp other (List.mem_cons_of_mem _ hother), by simpa using hne⟩
    have hothers := ih (Database.setTable_distinctNames hdb _) (Database.table?_setTable_self ht hsame)
      (hs.without [row]) htail hrest
    have hname : ((t.without [row]).without rest).name = (t.without [row]).name := rfl
    rw [Database.setTable_setTable hname, Table.without_cons] at hothers
    exact .cons hfirst hothers

/-! ## Changes -/

theorem planOn_update (hc : m.encode false changes = .ok cells) (hne : cells ≠ []) (id : Int64) :
    (Operation.update name id changes).planOn m = .ok ⟨.write, .record <$>
      m.updateAction (some ⟨m.tableName, cells, (m.selectById id).condition⟩) id⟩ := by
  simp only [Operation.planOn, Operation.cellsOf, hc, mapError_ok, ok_bind, if_neg hne,
    update_byId hne]
  rfl

section
variable (hown : m.OwnTable t) (ht : db.table? m.tableName = some t)
variable (hc : m.encode false changes = .ok cells) (hne : cells ≠ [])
include hown ht hc hne

/-- The change of a row by its key answers with the record of the changed row. -/
theorem performs_update (hk : Json.DistinctKeys changes) (hrow : row ∈ t.rows)
    (hstep : Table.updateRow cells t row = .ok t') :
    m.Performs (.update name row.id changes) db (.record (m.recordOf (t.changed cells row)))
      (db.setTable t') := by
  have hupdated := (hown.update_byId_eq_ok_iff hc hrow).mpr ⟨hstep, rfl⟩
  have hstatement : db.update ⟨m.tableName, cells, (m.selectById row.id).condition⟩ =
      .ok (db.setTable t', 1) :=
    Database.update_eq_ok.mpr
      ⟨fits_update_of_encode hown.narrow hk hc row.id, t, t', ht, hupdated, rfl⟩
  have hsame : sameName t'.name m.tableName :=
    (Table.update_name hupdated).1 ▸ Database.table?_name ht
  have hchanged : t.changed cells row ∈ t'.rows := by
    rw [hown.update_byId_rows hc hrow hupdated]
    exact List.mem_map.mpr ⟨row, hrow, if_pos rfl⟩
  have hfetch := fetchById_of_mem (.updated hown hupdated) (Database.table?_setTable_self ht hsame)
    .updatingRecord hchanged
  refine ⟨_, planOn_update hc hne row.id, runMap_eq_ok.mpr ⟨m.recordOf (t.changed cells row), ?_, rfl⟩⟩
  apply Action.transaction_eq_ok.mpr
  exact runBind_eq_ok.mpr ⟨1, _, Action.change_eq_ok.mpr hstatement, hfetch⟩

/-- The change of a row by its key changes this row, if that is accepted. -/
theorem performs_update_iff (hk : Json.DistinctKeys changes) (hrow : row ∈ t.rows) :
    (∃ answer, m.Performs (.update name row.id changes) db answer db') ↔
      ∃ t', Table.updateRow cells t row = .ok t' ∧ db' = db.setTable t' := by
  constructor
  · rintro ⟨_, _, hplan, haction⟩
    cases (planOn_update hc hne row.id).symm.trans hplan
    obtain ⟨record, hrun, _⟩ := runMap_eq_ok.mp haction
    obtain ⟨n, db₁, hchange, hrest⟩ := runBind_eq_ok.mp (Action.transaction_eq_ok.mp hrun)
    obtain ⟨_, u, t', hu, hupdated, rfl⟩ := Database.update_eq_ok.mp (Action.change_eq_ok.mp hchange)
    cases ht.symm.trans hu
    obtain ⟨hrow', rfl⟩ := (hown.update_byId_eq_ok_iff hc hrow).mp hupdated
    obtain rfl := commits_fetchById (R := (· = ·)) (fun _ => rfl) m _ row.id hrest
    exact ⟨t', hrow', rfl⟩
  · rintro ⟨t', hstep, rfl⟩
    exact ⟨_, performs_update hown ht hc hne hk hrow hstep⟩

theorem performs_updateAll_iff {value : Json} {condition : Option Clause} {answer : Answer}
    (hcondition : m.conditionFor (some value) = .ok condition)
    (hfits : Update.Fits ⟨m.tableName, cells, condition⟩) :
    m.Performs (.updateAll name value changes) db answer db' ↔
      answer = .count (t.matching condition).length ∧ ∃ t',
        (t.matching condition).foldlM (Table.updateRow cells) t = .ok t' ∧ db' = db.setTable t' := by
  have hplan := m.planOn_updateAll name value hc hne
  rw [hcondition, map_ok, mapError_ok] at hplan
  have hupdate : ∀ {t' n}, t.update cells condition = .ok (t', n) ↔ _ :=
    Table.update_eq_ok_iff (hown.hasColumn_of_encode hc)
  constructor
  · rintro ⟨_, hplan', haction⟩
    cases hplan.symm.trans hplan'
    obtain ⟨n, hchange, rfl⟩ := runMap_eq_ok.mp haction
    obtain ⟨_, u, t', hu, hupdated, rfl⟩ := Database.update_eq_ok.mp (Action.change_eq_ok.mp hchange)
    cases ht.symm.trans hu
    obtain ⟨hfold, rfl⟩ := hupdate.mp hupdated
    exact ⟨rfl, t', hfold, rfl⟩
  · rintro ⟨rfl, t', hfold, rfl⟩
    have hstatement : db.update ⟨m.tableName, cells, condition⟩ =
        .ok (db.setTable t', (t.matching condition).length) :=
      Database.update_eq_ok.mpr ⟨hfits, t, t', ht, hupdate.mpr ⟨hfold, rfl⟩, rfl⟩
    exact ⟨_, hplan, runMap_eq_ok.mpr ⟨_, Action.change_eq_ok.mpr hstatement, rfl⟩⟩

end

/-- The changes of several rows, one after another. The induction is on the rows that are still to be
changed; they all stand in the table as they are listed. -/
theorem performsAll_update_iff (hdb : db.DistinctNames) (hown : m.OwnTable t)
    (ht : db.table? m.tableName = some t) (hc : m.encode false changes = .ok cells) (hne : cells ≠ [])
    (hk : Json.DistinctKeys changes) {pending : List Row}
    (hd : pending.Pairwise fun a b => a.id ≠ b.id)
    (hp : ∀ row ∈ pending, row ∈ t.rows) :
    m.PerformsAll (pending.map fun row => .update name row.id changes) db db' ↔
      ∃ t', pending.foldlM (Table.updateRow cells) t = .ok t' ∧ db' = db.setTable t' := by
  induction pending generalizing db t with
  | nil =>
    constructor
    · rintro ⟨⟩
      exact ⟨t, rfl, (Database.setTable_table? hdb ht).symm⟩
    · rintro ⟨_, ⟨⟩, rfl⟩
      rw [Database.setTable_table? hdb ht]
      exact .nil db
  | cons row rest ih =>
    obtain ⟨hhead, htail⟩ := List.pairwise_cons.mp hd
    have hrow := hp row List.mem_cons_self
    -- After the first change the hypothesis applies to the rest, in the table that it left.
    have hrest : ∀ t₁, Table.updateRow cells t row = .ok t₁ →
        (m.PerformsAll (rest.map fun row => .update name row.id changes) (db.setTable t₁) db' ↔
          ∃ t', rest.foldlM (Table.updateRow cells) t₁ = .ok t' ∧ db' = db.setTable t') := by
      intro t₁ h₁
      obtain ⟨hown₁, hname, hkept⟩ := hown.updateRow hc hrow h₁
      have hsame : sameName t₁.name m.tableName := hname ▸ Database.table?_name ht
      have hwaits : ∀ other ∈ rest, other ∈ t₁.rows := fun other hother =>
        hkept other (hp other (List.mem_cons_of_mem _ hother)) (Ne.symm (hhead other hother))
      rw [ih (Database.setTable_distinctNames hdb t₁) hown₁ (Database.table?_setTable_self ht hsame)
        htail hwaits]
      refine exists_congr fun t' => and_congr_right fun hfold => ?_
      rw [Database.setTable_setTable (Table.foldlM_updateRow_name hfold)]
    rw [List.map_cons, performsAll_cons_iff, List.foldlM_cons]
    constructor
    · rintro ⟨answer, db₁, hfirst, hothers⟩
      obtain ⟨t₁, h₁, rfl⟩ := (performs_update_iff hown ht hc hne hk hrow).mp ⟨answer, hfirst⟩
      rw [h₁, ok_bind]
      exact (hrest t₁ h₁).mp hothers
    · rintro ⟨t', hfold, hdb'⟩
      obtain ⟨t₁, h₁, hfold⟩ := bind_eq_ok.mp hfold
      obtain ⟨answer, hfirst⟩ : ∃ answer, m.Performs (.update name row.id changes) db answer _ :=
        (performs_update_iff hown ht hc hne hk hrow).mpr ⟨t₁, h₁, rfl⟩
      exact ⟨answer, _, hfirst, (hrest t₁ h₁).mpr ⟨t', hfold, hdb'⟩⟩

/-- The keys of the records of rows are the keys of the rows. -/
theorem mapM_keyOf_recordOf (m : Model) (rows : List Row) :
    (rows.map m.recordOf).mapM keyOf = .ok (rows.map Row.id) := by
  induction rows with
  | nil => rfl
  | cons row rest ih =>
    rw [List.map_cons, List.mapM_cons, keyOf_recordOf, ok_bind, ih]
    rfl

end Model

namespace Session

variable {s : Session} {m : Model} {db : Database} {t : Table} {value : Json}

namespace Offers

variable (h : s.Offers m db t)
include h

/-- A session that offers a model its table can change the records of the model. -/
theorem reaches : ∃ handle, s.Reaches m handle db :=
  databaseOf?_eq_some.mp (h.databaseOf .write)

/-- There is one database that the session reaches. -/
theorem eq_of_reaches {handle : Handle} {other : Database} (hreaches : s.Reaches m handle other) :
    db = other := Option.some.inj (h.databaseOf .write ▸ Leads.databaseOf hreaches)

variable {condition : Option Clause} (hcondition : m.conditionFor (some value) = .ok condition)
include hcondition

theorem deleteAll_at_once (hfits : Fit (Delete.demands ⟨m.tableName, condition⟩)) {rows : List Row}
    (hrows : rows.Perm (t.matching condition)) : s.AtOnce (rows.map fun row => .delete m.name row.id)
      (perform (.deleteAll m.name value)) (.count (t.matching condition).length) := by
  refine atOnce_of_performsAll h.proper h.get (changeRecords_map ⟨rfl, rfl⟩ (fun _ => ⟨rfl, rfl⟩) _)
    (fun _ => h.reaches.imp fun _ hreaches => ⟨db, hreaches⟩) (fun _ _ => nofun)
    fun handle db₁ db' answer hreaches => ?_
  obtain rfl := h.eq_of_reaches hreaches
  have hd : rows.Pairwise fun a b => a.id ≠ b.id :=
    (hrows.pairwise_iff fun h => h.symm).mpr (h.own.sorted.distinct.filter _)
  have hin : ∀ row ∈ rows, row ∈ t.rows := fun row hrow =>
    (List.mem_filter.mp (hrows.mem_iff.mp hrow)).1
  have hall : m.PerformsAll (rows.map fun row => .delete m.name row.id) db _ :=
    Model.performsAll_delete (h.proper.database h.database) h.table h.own.sorted hd hin
  rw [t.without_perm hrows] at hall
  have hbulk : m.Performs (.deleteAll m.name value) db _ _ :=
    Model.performs_deleteAll h.table hcondition hfits
  constructor
  · intro hperforms
    obtain ⟨rfl, rfl⟩ := hbulk.unique hperforms
    exact ⟨rfl, hall⟩
  · rintro ⟨rfl, hperforms⟩
    obtain rfl := hall.unique hperforms
    exact hbulk

/-- The removal of the records of a filter succeeds. -/
theorem perform_deleteAll (hfits : Fit (Delete.demands ⟨m.tableName, condition⟩)) :
    ∃ s', perform (.deleteAll m.name value) s =
      .ok (.count (t.matching condition).length) s' := by
  obtain ⟨plan, hplan, haction⟩ : m.Performs (.deleteAll m.name value) db _ _ :=
    Model.performs_deleteAll h.table hcondition hfits
  exact ⟨_, h.perform_eq_ok rfl hplan haction⟩

theorem updateAll_at_once {changes : Record} {cells : List (String × SqlValue)}
    (hc : m.encode false changes = .ok cells) (hne : cells ≠ []) (hk : Json.DistinctKeys changes)
    (hfits : Update.Fits ⟨m.tableName, cells, condition⟩) {rows : List Row}
    (hrows : rows.Perm (t.matching condition)) :
    s.AtOnce (rows.map fun row => .update m.name row.id changes)
      (perform (.updateAll m.name value changes)) (.count (t.matching condition).length) := by
  refine atOnce_of_performsAll h.proper h.get (changeRecords_map ⟨rfl, rfl⟩ (fun _ => ⟨rfl, rfl⟩) _)
    (fun _ => h.reaches.imp fun _ hreaches => ⟨db, hreaches⟩) (fun _ _ => nofun)
    fun handle db₁ db' answer hreaches => ?_
  obtain rfl := h.eq_of_reaches hreaches
  have hd : (t.matching condition).Pairwise fun a b => a.id ≠ b.id := h.own.sorted.distinct.filter _
  have hin : ∀ row ∈ t.matching condition, row ∈ t.rows := fun row hrow => (List.mem_filter.mp hrow).1
  rw [Model.performs_updateAll_iff h.own h.table hc hne hcondition hfits,
    Model.performsAll_update_iff (h.proper.database h.database) h.own h.table hc hne hk
      ((hrows.pairwise_iff fun h => h.symm).mpr hd) fun row hrow => hin row (hrows.mem_iff.mp hrow)]
  simp only [h.own.foldlM_updateRow_perm hc hrows hd hin]

end Offers

/-- A session that answers an operation is open. -/
theorem isClosed_of_answer {op : Operation} {answer : Answer} (h : s.answer op = .ok answer) :
    s.isClosed = false := by
  unfold Session.answer at h
  split at h
  next hperform =>
    obtain ⟨_, _, _, _, _, _, hleads, _⟩ := perform_eq_ok hperform
    obtain ⟨c, hc, _⟩ := Option.bind_eq_some_iff.mp hleads.found
    rw [isClosed, hc, Option.isNone_some]
  · cases h

/-- A session with two games of Ann. -/
def annSession : Session :=
  (gameSession.after (.operation (.create "Game" [("player", .string "Ann")]))).after
    (.operation (.create "Game" [("player", .string "Ann")]))

/-- As many keys as there may be parameters leave no room for a value to be set. -/
theorem not_fits_update_manyKeys (cells : List (String × SqlValue)) (hne : cells ≠ []) :
    ¬ Update.Fits ⟨"person", cells, some (manyKeysClause 32766)⟩ := by
  intro h
  have hcount := h.text.parameters
  have hcells : (cells.map fun _ => Demand.parameter).count Demand.parameter = cells.length :=
    count_values cells
  have hkeys : (whereDemands 9 (some (manyKeysClause 32766))).count Demand.parameter = 32766 := by
    rw [whereDemands, Clause.count_demands, manyKeysClause, Clause.params_oneOf,
      List.length_replicate]
  rw [Update.demands, List.count_append, hcells, hkeys] at hcount
  have hpositive := List.length_pos_iff.mpr hne
  simp only [parameterLimit] at hcount
  omega

end Session

end RecordStore
