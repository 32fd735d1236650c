import RecordStore.Proofs.Session.Offers
import RecordStore.Proofs.Query.Keys
import RecordStore.Proofs.Query.Matching
import RecordStore.Proofs.Operation.Failures

/-!
# Changing a record or creating it

An upsert searches for the rows that have the members of a lookup. It creates a record where there is
no such row, changes the row where there is one, and is refused where there are several. The row that
it leaves has the members of the lookup and no other row has them, so that the same upsert done once
more finds this row, and gives it the cells that it has already.
-/

namespace RecordStore

namespace Action

variable {α : Type} {action : Action α} {db : Database}

theorem transaction_eq_error (db' : Database) {e : StoreError} (h : action db = .error e db') :
    transaction action db = .error e db := by rw [transaction, h]

end Action

namespace Model

variable {m : Model} {lookup defaults : Record} {sought changes cells : List (String × SqlValue)}

/-- The rows that have all members of a lookup, by the meaning of equality: a `null` in the lookup
means an empty cell. -/
def rowsWith (m : Model) (lookup : Record) (t : Table) : List Row :=
  t.rows.filter fun row => (Filter.matching lookup).meaning m row

/-- A search for the members of a record that the model accepts is compiled. -/
theorem restriction_matching {allowId : Bool} (h : m.encode allowId lookup = .ok sought) :
    ∃ condition, m.restriction (some (.matching lookup)) = .ok condition := by
  have haccepted : ∀ c ∈ (Filter.matching lookup).conditions, c.Accepted := by
    intro c hc
    rw [Filter.conditions_matching] at hc
    obtain ⟨member, _, rfl⟩ := List.mem_map.mp hc
    intro hlist
    cases hlist
  have hcompiles : ∃ condition, m.compile (.matching lookup) = .ok condition := by
    rw [compile_isOk_iff haccepted]
    intro c hc
    rw [Filter.conditions_matching] at hc
    obtain ⟨member, hmember, rfl⟩ := List.mem_map.mp hc
    obtain ⟨given, _, hencode⟩ := exists_of_mapM h hmember
    obtain ⟨_, column, hcolumn, _⟩ := encodeMember_eq_ok hencode
    refine ⟨by rw [hcolumn]; rfl, ?_⟩
    simp [Condition.ordersNull, Comparison.isOrdering]
  obtain ⟨condition, hcondition⟩ := hcompiles
  rw [restriction]
  split
  · exact ⟨none, rfl⟩
  · exact ⟨condition, hcondition⟩

/-- A row has the members of a lookup if it has the cells that they are stored in. -/
theorem mem_rowsWith {t : Table} {good : Json → Prop} (hown : m.OwnTable t)
    (htyped : ∀ row ∈ t.rows, m.Typed good row) (h : m.encode true lookup = .ok sought)
    (hexact : ∀ f ∈ m.fields, f.kind = .float → ∀ n, (f.name, Json.number n) ∈ lookup → n.Exact)
    {row : Row} : row ∈ m.rowsWith lookup t ↔ row ∈ t.rows ∧ m.Matches sought row := by
  have hfound : ∀ member ∈ lookup, ∀ column, m.column? member.1 = some column →
      column.kind.Found member.2 := by
    rintro ⟨name, value⟩ hmember column hcolumn hfloat n hrange rfl _
    obtain ⟨hmem, rfl⟩ := column?_name hcolumn
    rcases List.mem_cons.mp hmem with rfl | hfield
    · cases hfloat
    · obtain ⟨f, hf, rfl⟩ := List.mem_map.mp hfield
      exact hexact f hf hfloat _ hmember
  rw [rowsWith, List.mem_filter]
  exact and_congr_right fun hrow =>
    matching_meaning (hown.columns_length hrow) (htyped row hrow) h hfound

/-! ## What the action does -/

section
variable {db : Database} {t t' : Table} {condition : Option Clause}
variable (hown : m.OwnTable t) (ht : db.table? m.tableName = some t)
variable (hfit : Fit (whereDemands 5 condition ++ windowDemands (some searchWindow.toRows)))
include hown ht hfit

/-- A search for one record reads the first two rows that it finds. -/
theorem fetch_search : m.fetch .updatingRecord
    (m.selectWhere condition (some searchWindow.toRows)) db =
      .ok (((db.planner.visit t condition []).take 2).map m.recordOf) db :=
  fetch_selectWhere hown ht _ hfit

theorem upsertAction_created (changes : List (String × SqlValue))
    (hnone : t.matching condition = []) (hstored : Fit (m.insert cells).demands) {id : Int64}
    (hinsert : t.insert m.tableName cells = .ok (t', id)) :
    m.upsertAction (m.selectWhere condition (some searchWindow.toRows)) (m.insert cells) changes db =
      .ok (m.recordOf ⟨id, t.newCells cells⟩, true) (db.setTable t') := by
  have hfetch := fetch_search hown ht hfit
  rw [db.planner.visit_of_nil hnone] at hfetch
  have hstatement : db.insert (m.insert cells) = .ok (db.setTable t', id) :=
    Database.insert_eq_ok.mpr ⟨hstored, t, t', ht, hinsert, rfl⟩
  have hrecord := fetchById_of_new hown ht .updatingRecord hinsert
  apply Action.transaction_eq_ok.mpr
  refine runBind_eq_ok.mpr ⟨[], db, hfetch, ?_⟩
  refine runBind_eq_ok.mpr ⟨id, _, Action.change_eq_ok.mpr hstatement, ?_⟩
  exact runBind_eq_ok.mpr ⟨_, _, hrecord, rfl⟩

theorem upsertAction_not_created (changes : List (String × SqlValue))
    (hnone : t.matching condition = []) (hstored : Fit (m.insert cells).demands)
    {cause : DatabaseFault} (hinsert : t.insert m.tableName cells = .error cause) :
    m.upsertAction (m.selectWhere condition (some searchWindow.toRows)) (m.insert cells) changes db =
      .error (.operation (.failed .updatingRecord cause)) db := by
  have hfetch := fetch_search hown ht hfit
  rw [db.planner.visit_of_nil hnone] at hfetch
  have hstatement := insert_refused ht hstored hinsert
  apply Action.transaction_eq_error db
  refine runBind_eq_error.mpr (.inr ⟨[], db, hfetch, ?_⟩)
  refine runBind_eq_error.mpr (.inl ?_)
  exact Action.change_eq_error.mpr ⟨cause, hstatement, rfl, rfl⟩

/-- Several rows are found. -/
theorem upsertAction_several (cells changes : List (String × SqlValue))
    (hseveral : 2 ≤ (t.matching condition).length) :
    m.upsertAction (m.selectWhere condition (some searchWindow.toRows)) (m.insert cells) changes db =
      .error .multipleRecordsFound db := by
  have hfetch := fetch_search hown ht hfit
  rw [← (db.planner.perm t condition []).length_eq] at hseveral
  obtain ⟨a, b, rest, hrows⟩ :
      ∃ a b rest, db.planner.visit t condition [] = a :: b :: rest := by
    match hvisit : db.planner.visit t condition [], hseveral with
    | a :: b :: rest, _ => exact ⟨a, b, rest, rfl⟩
  rw [hrows] at hfetch
  apply Action.transaction_eq_error db
  exact runBind_eq_error.mpr (.inr ⟨_, db, hfetch, rfl⟩)

end

theorem ofExcept_keyOf (m : Model) (row : Row) (db : Database) :
    (MonadExcept.ofExcept (keyOf (m.recordOf row)) : Action Int64) db = .ok row.id db := by
  rw [keyOf_recordOf]
  rfl

section
variable {db : Database} {t t' : Table} {condition : Option Clause} {row : Row}
variable (hown : m.OwnTable t) (hchanges : m.encode false defaults = .ok changes)
include hown hchanges

/-- Changes without cells change no row. -/
theorem OwnTable.changed_nil (hnil : changes = []) (hrow : row ∈ t.rows) :
    t.changed changes row = row := by
  apply hown.changed_of_matches hchanges (hown.columns_length hrow)
  rw [hnil]
  exact fun given hgiven => absurd hgiven List.not_mem_nil

/-- Only changes with cells are refused. -/
theorem OwnTable.ne_nil_of_refused {cause : DatabaseFault}
    (h : t.update changes condition = .error cause) : changes ≠ [] := by
  intro hnil
  have hsame : ∀ other ∈ t.matching condition, t.changed changes other = other :=
    fun other hother => hown.changed_nil hchanges hnil (List.mem_filter.mp hother).1
  rw [hown.update_unchanged (hown.assigned?_id hchanges) (hown.hasColumn_of_encode hchanges)
    hsame] at h
  cases h

variable (ht : db.table? m.tableName = some t) (hone : t.matching condition = [row])
variable (hk : Json.DistinctKeys defaults)
variable (hfit : Fit (whereDemands 5 condition ++ windowDemands (some searchWindow.toRows)))
include ht hone hk hfit

theorem upsertAction_changed (cells : List (String × SqlValue)) (hdb : db.DistinctNames) {n : Nat}
    (hupdate : t.update changes (m.selectById row.id).condition = .ok (t', n)) :
    m.upsertAction (m.selectWhere condition (some searchWindow.toRows)) (m.insert cells) changes db =
      .ok (m.recordOf (t.changed changes row), false) (db.setTable t') := by
  have hrow : row ∈ t.rows := (List.mem_filter.mp (hone ▸ List.mem_singleton_self row)).1
  have hfetch := fetch_search hown ht hfit
  rw [db.planner.visit_of_singleton hone] at hfetch
  have hid := ofExcept_keyOf m row db
  obtain ⟨_, ht'⟩ := Table.update_of_no_id (hown.assigned?_id hchanges) hown.sorted hupdate
  have hsame : sameName t'.name m.tableName :=
    (Table.update_name hupdate).1 ▸ Database.table?_name ht
  have hchanged : t.changed changes row ∈ t'.rows := by
    rw [ht']
    exact List.mem_map.mpr ⟨row, hrow, if_pos (selectById_selects_iff.mpr rfl)⟩
  have hrecord := fetchById_of_mem (.updated hown hupdate) (Database.table?_setTable_self ht hsame)
    .updatingRecord hchanged
  apply Action.transaction_eq_ok.mpr
  refine runBind_eq_ok.mpr ⟨[m.recordOf row], db, hfetch, ?_⟩
  refine runBind_eq_ok.mpr ⟨row.id, db, hid, ?_⟩
  by_cases hne : changes = []
  · have hunchanged : t' = t := by
      rw [ht']
      refine (Table.mapRows_congr fun other hother => ?_).trans t.mapRows_id
      split
      · exact hown.changed_nil hchanges hne hother
      · rfl
    rw [hunchanged, Database.setTable_table? hdb ht] at hrecord
    rw [hunchanged, Database.setTable_table? hdb ht, if_neg (not_not_intro hne)]
    exact runBind_eq_ok.mpr ⟨_, _, hrecord, rfl⟩
  · have hstatement : db.update ⟨m.tableName, changes, (m.selectById row.id).condition⟩ =
        .ok (db.setTable t', n) := Database.update_eq_ok.mpr
      ⟨fits_update_of_encode hown.narrow hk hchanges row.id, t, t', ht, hupdate, rfl⟩
    rw [if_pos hne, update_byId hne]
    refine runBind_eq_ok.mpr ⟨_, db, rfl, ?_⟩
    refine runBind_eq_ok.mpr ⟨n, _, Action.change_eq_ok.mpr hstatement, ?_⟩
    exact runBind_eq_ok.mpr ⟨_, _, hrecord, rfl⟩

theorem upsertAction_not_changed (cells : List (String × SqlValue)) {cause : DatabaseFault}
    (hupdate : t.update changes (m.selectById row.id).condition = .error cause) :
    m.upsertAction (m.selectWhere condition (some searchWindow.toRows)) (m.insert cells) changes db =
      .error (.operation (.failed .updatingRecord cause)) db := by
  have hne := hown.ne_nil_of_refused hchanges hupdate
  have hfetch := fetch_search hown ht hfit
  rw [db.planner.visit_of_singleton hone] at hfetch
  have hid := ofExcept_keyOf m row db
  have hfits := fits_update_of_encode hown.narrow hk hchanges row.id
  have hstatement := Database.update_refused hfits ht hupdate
  apply Action.transaction_eq_error db
  refine runBind_eq_error.mpr (.inr ⟨[m.recordOf row], db, hfetch, ?_⟩)
  refine runBind_eq_error.mpr (.inr ⟨row.id, db, hid, ?_⟩)
  rw [if_pos hne, update_byId hne]
  refine runBind_eq_error.mpr (.inr ⟨_, db, rfl, ?_⟩)
  refine runBind_eq_error.mpr (.inl ?_)
  exact Action.change_eq_error.mpr ⟨cause, hstatement, rfl, rfl⟩

end

/-- The plan of an upsert whose lookup and defaults are accepted and have no key in common. -/
theorem planOn_upsert (name : String) {condition : Option Clause}
    (hlookup : m.encode true lookup = .ok sought) (hdefaults : m.encode false defaults = .ok changes)
    (hd : Json.DistinctKeys (lookup ++ defaults))
    (hcondition : m.restriction (some (.matching lookup)) = .ok condition) :
    (Operation.upsert name lookup defaults).planOn m = .ok ⟨.write, do
      let (record, created) ←
        m.upsertAction (m.selectWhere condition (some searchWindow.toRows))
          (m.insert (changes ++ sought)) changes
      pure (.upserted record created)⟩ := by
  have hmerged : Json.setMembers defaults lookup = defaults ++ lookup :=
    Json.setMembers_of_distinct (hd.perm List.perm_append_comm)
  have hcells : m.encode true (defaults ++ lookup) = .ok (changes ++ sought) :=
    mapM_append (encode_allowId hdefaults) hlookup
  have hselect : m.select (some (.matching lookup)) [] (some searchWindow) =
      .ok (m.selectWhere condition (some searchWindow.toRows)) := by
    rw [select, hcondition]
    rfl
  simp only [Operation.planOn, Operation.cellsOf, hlookup, hdefaults, hmerged, hcells, hselect,
    mapError_ok, ok_bind]

end Model

namespace Session

variable {s s' : Session} {m : Model} {db : Database} {t : Table} {lookup defaults : Record}

/-- An upsert that ran was refused, because a constraint is violated or there are no more keys, and
changed nothing. -/
def RefusesUpsert (s : Session) (m : Model) (lookup defaults : Record) : Prop :=
  ∃ cause s', (cause.isConstraint = true ∨ cause = .full) ∧
    perform (.upsert m.name lookup defaults) s =
      .error (.operation (.failed .updatingRecord cause)) s' ∧ s.SameData s'

/-- What an upsert does in a session where the model has the given table. -/
structure Upserts (s : Session) (m : Model) (t : Table) (lookup defaults : Record) : Prop where
  /-- Where no row has the members of the lookup, the record is created that a creation with all
  members creates, and nothing else changes; the upsert is refused if the creation is. -/
  created : m.rowsWith lookup t = [] →
    (∃ record s' before after,
      perform (.upsert m.name lookup defaults) s = .ok (.upserted record true) s' ∧
      (∀ whole, whole.Perm (lookup ++ defaults) →
        perform (.create m.name whole) s = .ok (.record record) s') ∧
      t.rows.map m.recordOf = before ++ after ∧
      s.Leaves m (.upsert m.name lookup defaults) (.upserted record true)
        (before ++ record :: after)) ∨
    s.RefusesUpsert m lookup defaults ∧ ∀ whole, whole.Perm (lookup ++ defaults) →
      ∃ e s', perform (.create m.name whole) s = .error e s'
  /-- Where one row has them, its record is changed by the defaults, and keeps its key; the upsert is
  refused if the change of this record is. -/
  changed : ∀ row, m.rowsWith lookup t = [row] →
    Model.keyOf (m.applied defaults (m.recordOf row)) = .ok row.id ∧
      s.Leaves m (.upsert m.name lookup defaults)
        (.upserted (m.applied defaults (m.recordOf row)) false)
        (t.rows.map fun other =>
          if other = row then m.applied defaults (m.recordOf row) else m.recordOf other) ∨
    s.RefusesUpsert m lookup defaults ∧
      ∃ e s', perform (.update m.name row.id defaults) s = .error e s'
  /-- Where several rows have them, the upsert is refused. -/
  several : 2 ≤ (m.rowsWith lookup t).length → ∃ s',
    perform (.upsert m.name lookup defaults) s = .error .multipleRecordsFound s' ∧ s.SameData s'
  /-- Done once more, the upsert answers with the same record and changes nothing. -/
  again : ∀ record created s', perform (.upsert m.name lookup defaults) s =
    .ok (.upserted record created) s' → ∃ s'',
      perform (.upsert m.name lookup defaults) s' = .ok (.upserted record false) s'' ∧ s'.SameData s''

/-- What an upsert is given: a lookup and defaults that the model accepts, with the cells that they
give. They have no key in common, and the numbers that the lookup gives to fields of doubles are
doubles. -/
structure UpsertArguments (m : Model) (lookup defaults : Record)
    (sought changes : List (String × SqlValue)) : Prop where
  sought : m.encode true lookup = .ok sought
  changes : m.encode false defaults = .ok changes
  distinct : Json.DistinctKeys (lookup ++ defaults)
  exact : ∀ f ∈ m.fields, f.kind = .float → ∀ n, (f.name, Json.number n) ∈ lookup → n.Exact

namespace UpsertArguments

variable {sought changes : List (String × SqlValue)}
variable (ha : UpsertArguments m lookup defaults sought changes)
include ha

theorem merged : m.encode true (defaults ++ lookup) = .ok (changes ++ sought) :=
  mapM_append (Model.encode_allowId ha.changes) ha.sought

theorem mem_rowsWith (hfilled : m.Filled (fun _ => True) t) {row : Row} :
    row ∈ m.rowsWith lookup t ↔ row ∈ t.rows ∧ m.Matches sought row :=
  Model.mem_rowsWith hfilled.own (hfilled.typed fun _ _ _ _ _ => trivial) ha.sought ha.exact

theorem keys : Json.DistinctKeys (defaults ++ lookup) := ha.distinct.perm List.perm_append_comm

theorem stored (hm : m.Narrow) : Fit (m.insert (changes ++ sought)).demands :=
  Model.fit_insert_of_encode hm ha.keys ha.merged

theorem defaults_keys : Json.DistinctKeys defaults := (List.pairwise_append.mp ha.distinct).2.1

/-- No column is both searched for and changed. -/
theorem names_apart {given change : String × SqlValue} (hgiven : given ∈ sought)
    (hchange : change ∈ changes) : given.1 ≠ change.1 := by
  obtain ⟨member, hmember, hencode⟩ := mem_of_mapM ha.sought hgiven
  obtain ⟨other, hother, hencode'⟩ := mem_of_mapM ha.changes hchange
  rw [(Model.encodeMember_eq_ok hencode).1, (Model.encodeMember_eq_ok hencode').1]
  exact (List.pairwise_append.mp ha.distinct).2.2 member hmember other hother

end UpsertArguments

namespace Offers

variable (h : s.Offers m db t) {sought changes : List (String × SqlValue)}
variable (ha : UpsertArguments m lookup defaults sought changes)
variable (hfew : lookup.length < levelLimit)
include h ha hfew

/-- The rows that the search of the upsert finds. -/
theorem exists_search : ∃ condition, m.restriction (some (.matching lookup)) = .ok condition ∧
    Fit (whereDemands 5 condition ++ windowDemands (some Model.searchWindow.toRows)) ∧
    t.matching condition = m.rowsWith lookup t := by
  obtain ⟨condition, hcondition⟩ := Model.restriction_matching ha.sought
  refine ⟨condition, hcondition, (Model.fit_matching hcondition (by decide) _).mpr hfew,
    List.filter_congr fun row hrow => ?_⟩
  exact restriction_meaning h.own hrow hcondition

/-- Where no row has the members of the lookup, a row is added for the lookup and the defaults. -/
theorem upsert_created (hnone : m.rowsWith lookup t = []) {t' : Table} {id : Int64}
    (hinsert : t.insert m.tableName (changes ++ sought) = .ok (t', id)) :
    perform (.upsert m.name lookup defaults) s =
      .ok (.upserted (m.recordOf ⟨id, t.newCells (changes ++ sought)⟩) true)
        (s.setDatabase (db.setTable t')) := by
  obtain ⟨condition, hcondition, hfit, hmatching⟩ := h.exists_search ha hfew
  have hplan := Model.planOn_upsert m.name ha.sought ha.changes ha.distinct hcondition
  have haction := Model.upsertAction_created h.own h.table hfit changes
    (hmatching.trans hnone) (ha.stored h.own.narrow) hinsert
  exact h.perform_eq_ok rfl hplan (runBind_eq_ok.mpr ⟨_, _, haction, rfl⟩)

theorem upsert_not_created (hnone : m.rowsWith lookup t = []) {cause : DatabaseFault}
    (hinsert : t.insert m.tableName (changes ++ sought) = .error cause) :
    perform (.upsert m.name lookup defaults) s =
      .error (.operation (.failed .updatingRecord cause)) (s.setDatabase db) := by
  obtain ⟨condition, hcondition, hfit, hmatching⟩ := h.exists_search ha hfew
  have hplan := Model.planOn_upsert m.name ha.sought ha.changes ha.distinct hcondition
  have haction := Model.upsertAction_not_created h.own h.table hfit changes (hmatching.trans hnone)
    (ha.stored h.own.narrow) hinsert
  exact h.perform_eq_error rfl hplan (runBind_eq_error.mpr (.inl haction))

/-- Where one row has them, it gets the cells of the defaults. -/
theorem upsert_changed {row : Row} (hone : m.rowsWith lookup t = [row]) {t' : Table} {n : Nat}
    (hupdate : t.update changes (m.selectById row.id).condition = .ok (t', n)) :
    perform (.upsert m.name lookup defaults) s =
      .ok (.upserted (m.recordOf (t.changed changes row)) false)
        (s.setDatabase (db.setTable t')) := by
  obtain ⟨condition, hcondition, hfit, hmatching⟩ := h.exists_search ha hfew
  have hplan := Model.planOn_upsert m.name ha.sought ha.changes ha.distinct hcondition
  have haction := Model.upsertAction_changed h.own ha.changes h.table (hmatching.trans hone)
    ha.defaults_keys hfit (changes ++ sought) (h.proper.database h.database) hupdate
  exact h.perform_eq_ok rfl hplan (runBind_eq_ok.mpr ⟨_, _, haction, rfl⟩)

theorem upsert_not_changed {row : Row} (hone : m.rowsWith lookup t = [row]) {cause : DatabaseFault}
    (hupdate : t.update changes (m.selectById row.id).condition = .error cause) :
    perform (.upsert m.name lookup defaults) s =
      .error (.operation (.failed .updatingRecord cause)) (s.setDatabase db) := by
  obtain ⟨condition, hcondition, hfit, hmatching⟩ := h.exists_search ha hfew
  have hplan := Model.planOn_upsert m.name ha.sought ha.changes ha.distinct hcondition
  have haction := Model.upsertAction_not_changed h.own ha.changes h.table (hmatching.trans hone)
    ha.defaults_keys hfit (changes ++ sought) hupdate
  exact h.perform_eq_error rfl hplan (runBind_eq_error.mpr (.inl haction))

theorem upsert_several (hseveral : 2 ≤ (m.rowsWith lookup t).length) :
    perform (.upsert m.name lookup defaults) s =
      .error .multipleRecordsFound (s.setDatabase db) := by
  obtain ⟨condition, hcondition, hfit, hmatching⟩ := h.exists_search ha hfew
  have hplan := Model.planOn_upsert m.name ha.sought ha.changes ha.distinct hcondition
  have haction :=
    Model.upsertAction_several h.own h.table hfit (changes ++ sought) changes (hmatching ▸ hseveral)
  exact h.perform_eq_error rfl hplan (runBind_eq_error.mpr (.inl haction))

/-- Where one row has them, and the cells of the defaults already, the upsert changes nothing. -/
theorem upsert_unchanged {row : Row} (hone : m.rowsWith lookup t = [row])
    (hmatches : m.Matches changes row) : ∃ s',
      perform (.upsert m.name lookup defaults) s = .ok (.upserted (m.recordOf row) false) s' ∧
        s.SameData s' := by
  have hrow : row ∈ t.rows := (List.mem_filter.mp (hone ▸ List.mem_singleton_self row)).1
  have hsame := h.own.changed_of_matches ha.changes (h.own.columns_length hrow) hmatches
  have hall : ∀ other ∈ t.matching (m.selectById row.id).condition,
      t.changed changes other = other := by
    intro other hother
    obtain ⟨hmem, hselected⟩ := List.mem_filter.mp hother
    rw [h.own.sorted.eq_of_id hmem hrow (Model.selectById_selects_iff.mp hselected)]
    exact hsame
  have hupdate := h.own.update_unchanged (h.own.assigned?_id ha.changes)
    (h.own.hasColumn_of_encode ha.changes) hall
  have hperform := h.upsert_changed ha hfew hone hupdate
  rw [hsame, Database.setTable_table? (h.proper.database h.database) h.table] at hperform
  exact ⟨_, hperform, setDatabase_sameData h.database⟩

omit ha hfew in
/-- A change of the row with a given key is refused if the table refuses it. -/
theorem update_refused (hchanges : m.encode false defaults = .ok changes)
    (hk : Json.DistinctKeys defaults) {id : Int64}
    {cause : DatabaseFault}
    (hupdate : t.update changes (m.selectById id).condition = .error cause) :
    ∃ e s', perform (.update m.name id defaults) s = .error e s' := by
  have hne := h.own.ne_nil_of_refused hchanges hupdate
  have hplan : (Operation.update m.name id defaults).planOn m = .ok ⟨.write, .record <$>
      m.updateAction (some ⟨m.tableName, changes, (m.selectById id).condition⟩) id⟩ := by
    simp only [Operation.planOn, Operation.cellsOf, hchanges, mapError_ok, ok_bind, if_neg hne,
      Model.update_byId hne]
    rfl
  have hfits := Model.fits_update_of_encode h.own.narrow hk hchanges id
  have hstatement := Database.update_refused hfits h.table hupdate
  have haction : m.updateAction (some ⟨m.tableName, changes, (m.selectById id).condition⟩) id db =
      .error (.operation (.failed .updatingRecord cause)) db := by
    apply Action.transaction_eq_error db
    refine runBind_eq_error.mpr (.inl ?_)
    exact Action.change_eq_error.mpr ⟨cause, hstatement, rfl, rfl⟩
  exact ⟨_, _, h.perform_eq_error rfl hplan (runMap_eq_error.mpr haction)⟩

/-! ## Once more -/

/-- After the creation the new row is the one that has the members of the lookup. -/
theorem again_created (hfilled : m.Filled (fun _ => True) t) (hnone : m.rowsWith lookup t = [])
    {t' : Table} {id : Int64}
    (hinsert : t.insert m.tableName (changes ++ sought) = .ok (t', id)) : ∃ s'',
      perform (.upsert m.name lookup defaults) (s.setDatabase (db.setTable t')) =
        .ok (.upserted (m.recordOf ⟨id, t.newCells (changes ++ sought)⟩) false) s'' ∧
      (s.setDatabase (db.setTable t')).SameData s'' := by
  have hfilled' : m.Filled (fun _ => True) t' :=
    .inserted hfilled (m.admits_any _) ha.merged hinsert
  obtain ⟨hid, hrows⟩ := Table.insert_eq_ok hinsert
  have hmatches := h.own.matches_new ha.merged ha.keys hid
  obtain ⟨before, after, hold, hnew⟩ :=
    Table.insertRow_split ⟨id, t.newCells (changes ++ sought)⟩ t.rows
  have hmem : ⟨id, t.newCells (changes ++ sought)⟩ ∈ m.rowsWith lookup t' := by
    refine (ha.mem_rowsWith hfilled').mpr ⟨?_, fun given hgiven => ?_⟩
    · rw [hrows]
      exact Table.mem_insertRow.mpr (.inl rfl)
    · exact hmatches given (List.mem_append_right _ hgiven)
  have hone : m.rowsWith lookup t' = [⟨id, t.newCells (changes ++ sought)⟩] := by
    rw [Model.rowsWith, hold, List.filter_append, List.append_eq_nil_iff] at hnone
    have hmeaning := (List.mem_filter.mp hmem).2
    rw [Model.rowsWith, hrows, hnew, List.filter_append, hnone.1, List.filter_cons, if_pos hmeaning,
      hnone.2, List.nil_append]
  have hoffers := h.setTable (Table.insert_name hinsert).1 (.inserted h.own hinsert)
  exact hoffers.upsert_unchanged ha hfew hone fun given hgiven =>
    hmatches given (List.mem_append_left _ hgiven)

/-- The changed row keeps the members of the lookup, and the other rows still do not have them. -/
theorem again_changed (hfilled : m.Filled (fun _ => True) t) {row : Row}
    (hone : m.rowsWith lookup t = [row]) {t' : Table} {n : Nat}
    (hupdate : t.update changes (m.selectById row.id).condition = .ok (t', n)) : ∃ s'',
      perform (.upsert m.name lookup defaults) (s.setDatabase (db.setTable t')) =
        .ok (.upserted (m.recordOf (t.changed changes row)) false) s'' ∧
      (s.setDatabase (db.setTable t')).SameData s'' := by
  have hfilled' : m.Filled (fun _ => True) t' :=
    .updated hfilled (m.admits_any _) ha.changes hupdate
  obtain ⟨hrow, hsought⟩ := (ha.mem_rowsWith hfilled).mp (hone ▸ List.mem_singleton_self row)
  have hlength := h.own.columns_length hrow
  have ht' := h.own.update_byId_rows ha.changes hrow hupdate
  have hmatches : m.Matches changes (t.changed changes row) :=
    h.own.matches_changed ha.changes (List.pairwise_append.mp ha.distinct).2.1 hlength
  have hmem : t.changed changes row ∈ m.rowsWith lookup t' := by
    refine (ha.mem_rowsWith hfilled').mpr ⟨?_, fun given hgiven => ?_⟩
    · rw [ht']
      exact List.mem_map.mpr ⟨row, hrow, if_pos rfl⟩
    · obtain ⟨column, hcell⟩ := hsought given hgiven
      exact ⟨column, h.own.cell?_changed ha.changes hlength hcell fun change hchange heq =>
        ha.names_apart hgiven hchange heq.symm⟩
  have hone' : m.rowsWith lookup t' = [t.changed changes row] := by
    have hkept : ∀ other ∈ t.rows, (Filter.matching lookup).meaning m
        (if other = row then t.changed changes row else other) =
          (Filter.matching lookup).meaning m other := by
      intro other hother
      split
      next heq =>
        have hfound : row ∈ m.rowsWith lookup t := hone ▸ List.mem_singleton_self row
        rw [heq, (List.mem_filter.mp hmem).2, (List.mem_filter.mp hfound).2]
      next => rfl
    have hfilter : t.rows.filter ((fun other => (Filter.matching lookup).meaning m other) ∘
        fun other => if other = row then t.changed changes row else other) = [row] := by
      rw [← hone]
      exact List.filter_congr hkept
    rw [Model.rowsWith, ht', List.filter_map, hfilter, List.map_singleton, if_pos rfl]
  have hoffers := h.setTable (Table.update_name hupdate).1 (.updated h.own hupdate)
  exact hoffers.upsert_unchanged ha hfew hone' hmatches

/-! ## What an upsert does -/

theorem upserts_created (hd : DistinctTables s.registry.models) (hnone : m.rowsWith lookup t = []) :
    (∃ record s' before after,
      perform (.upsert m.name lookup defaults) s = .ok (.upserted record true) s' ∧
      (∀ whole, whole.Perm (lookup ++ defaults) →
        perform (.create m.name whole) s = .ok (.record record) s') ∧
      t.rows.map m.recordOf = before ++ after ∧
      s.Leaves m (.upsert m.name lookup defaults) (.upserted record true)
        (before ++ record :: after)) ∨
    s.RefusesUpsert m lookup defaults ∧ ∀ whole, whole.Perm (lookup ++ defaults) →
      ∃ e s', perform (.create m.name whole) s = .error e s' := by
  have hdistinct : Json.DistinctKeys (defaults ++ lookup) := ha.keys
  have hwhole (whole : Record) (hp : whole.Perm (lookup ++ defaults)) :
      ∃ cells, m.encode true whole = .ok cells ∧ Fit (m.insert cells).demands ∧
        t.newCells cells = t.newCells (changes ++ sought) ∧
        t.insert m.tableName cells = t.insert m.tableName (changes ++ sought) := by
    obtain ⟨cells, hcells, hp'⟩ := Model.encode_perm ha.merged (hp.trans List.perm_append_comm)
    have hapart := Model.cellsApart_of_encode h.own.names_apart hdistinct ha.merged
    have hkeys := hdistinct.perm (hp.trans List.perm_append_comm)
    exact ⟨cells, hcells, Model.fit_insert_of_encode h.own.narrow hkeys hcells,
      t.newCells_perm hapart hp', h.own.insert_perm ha.merged hdistinct hcells hp' m.tableName⟩
  cases hinsert : t.insert m.tableName (changes ++ sought) with
  | ok added =>
    obtain ⟨t', id⟩ := added
    have hperform := h.upsert_created ha hfew hnone hinsert
    have hleaves := h.leaves hd rfl hperform (Table.insert_name hinsert).1 (.inserted h.own hinsert)
    obtain ⟨before, after, hold, hnew⟩ :=
      Table.insertRow_split ⟨id, t.newCells (changes ++ sought)⟩ t.rows
    refine .inl ⟨_, _, before.map m.recordOf, after.map m.recordOf, hperform, fun whole hp => ?_,
      by rw [hold, List.map_append], ?_⟩
    · obtain ⟨cells, hcells, hstored, hsame, hinsert'⟩ := hwhole whole hp
      rw [← hsame]
      exact h.create_eq_ok hcells hstored (hinsert'.trans hinsert)
    · rwa [(Table.insert_eq_ok hinsert).2, hnew, List.map_append, List.map_cons] at hleaves
  | error cause =>
    refine .inr ⟨⟨cause, _, h.own.insert_error ha.merged hinsert,
      h.upsert_not_created ha hfew hnone hinsert, setDatabase_sameData h.database⟩, fun whole hp =>
        ?_⟩
    obtain ⟨cells, hcells, hstored, _, hinsert'⟩ := hwhole whole hp
    exact ⟨_, _, h.create_eq_error hcells hstored (hinsert'.trans hinsert)⟩

theorem upserts_changed (hd : DistinctTables s.registry.models) {row : Row}
    (hone : m.rowsWith lookup t = [row]) :
    Model.keyOf (m.applied defaults (m.recordOf row)) = .ok row.id ∧
      s.Leaves m (.upsert m.name lookup defaults)
        (.upserted (m.applied defaults (m.recordOf row)) false)
        (t.rows.map fun other =>
          if other = row then m.applied defaults (m.recordOf row) else m.recordOf other) ∨
    s.RefusesUpsert m lookup defaults ∧
      ∃ e s', perform (.update m.name row.id defaults) s = .error e s' := by
  have hrow : row ∈ t.rows := (List.mem_filter.mp (hone ▸ List.mem_singleton_self row)).1
  cases hupdate : t.update changes (m.selectById row.id).condition with
  | ok updated =>
    obtain ⟨t', n⟩ := updated
    have hrecord := h.own.recordOf_changed ha.changes row
    have hperform := h.upsert_changed ha hfew hone hupdate
    have hleaves := h.leaves hd rfl hperform (Table.update_name hupdate).1 (.updated h.own hupdate)
    rw [hrecord, h.own.update_byId_rows ha.changes hrow hupdate, List.map_map] at hleaves
    have hrecords : t.rows.map (m.recordOf ∘ fun other =>
        if other = row then t.changed changes row else other) = t.rows.map fun other =>
          if other = row then m.applied defaults (m.recordOf row) else m.recordOf other := by
      apply List.map_congr_left
      intro other _
      rw [Function.comp_apply, apply_ite m.recordOf, hrecord]
    rw [hrecords] at hleaves
    refine .inl ⟨?_, hleaves⟩
    rw [← hrecord, Model.keyOf_recordOf]
    rfl
  | error cause =>
    exact .inr ⟨⟨cause, _, .inl (h.own.update_error ha.changes hupdate),
      h.upsert_not_changed ha hfew hone hupdate, setDatabase_sameData h.database⟩,
      h.update_refused ha.changes ha.defaults_keys hupdate⟩

end Offers

/-- A lookup of too many members is refused before anything is read. -/
theorem Offers.upsert_exceeds (h : s.Offers m db t) {sought changes : List (String × SqlValue)}
    (ha : UpsertArguments m lookup defaults sought changes) (hmany : ¬ lookup.length < levelLimit) :
    s.Exceeds (.upsert m.name lookup defaults) := by
  obtain ⟨condition, hcondition⟩ := Model.restriction_matching ha.sought
  have hplan := Model.planOn_upsert m.name ha.sought ha.changes ha.distinct hcondition
  have hfits : ¬ (m.selectWhere condition (some Model.searchWindow.toRows)).Fits := fun hfits =>
    hmany ((Model.fit_matching hcondition (by decide) _).mp hfits.text)
  obtain ⟨cause, hlimit, hselect⟩ := Database.select_exceeds h.table hfits
  have hfetch : m.fetch .updatingRecord
      (m.selectWhere condition (some Model.searchWindow.toRows)) db = .error _ db :=
    runBind_eq_error.mpr (.inl (Action.read_eq_error.mpr ⟨cause, hselect, rfl, rfl⟩))
  have haction : m.upsertAction (m.selectWhere condition (some Model.searchWindow.toRows))
      (m.insert (changes ++ sought)) changes db = .error _ db :=
    Action.transaction_eq_error db (runBind_eq_error.mpr (.inl hfetch))
  exact ⟨.updatingRecord, cause, _, hlimit,
    h.perform_eq_error rfl hplan (runBind_eq_error.mpr (.inl haction)),
    setDatabase_sameData h.database⟩

theorem Offers.upserts (h : s.Offers m db t) (hd : DistinctTables s.registry.models)
    (hfilled : m.Filled (fun _ => True) t) {sought changes : List (String × SqlValue)}
    (ha : UpsertArguments m lookup defaults sought changes) (hfew : lookup.length < levelLimit) :
    s.Upserts m t lookup defaults := by
  refine ⟨h.upserts_created ha hfew hd, fun row hone => h.upserts_changed ha hfew hd hone,
    fun hseveral => ⟨_, h.upsert_several ha hfew hseveral, setDatabase_sameData h.database⟩,
    fun record created s' hperform => ?_⟩
  match hrows : m.rowsWith lookup t with
  | [] =>
    cases hinsert : t.insert m.tableName (changes ++ sought) with
    | ok added =>
      obtain ⟨t', id⟩ := added
      cases hperform.symm.trans (h.upsert_created ha hfew hrows hinsert)
      exact h.again_created ha hfew hfilled hrows hinsert
    | error cause => cases hperform.symm.trans (h.upsert_not_created ha hfew hrows hinsert)
  | [row] =>
    cases hupdate : t.update changes (m.selectById row.id).condition with
    | ok updated =>
      obtain ⟨t', n⟩ := updated
      cases hperform.symm.trans (h.upsert_changed ha hfew hrows hupdate)
      exact h.again_changed ha hfew hfilled hrows hupdate
    | error cause => cases hperform.symm.trans (h.upsert_not_changed ha hfew hrows hupdate)
  | a :: b :: rest =>
    have hseveral : 2 ≤ (m.rowsWith lookup t).length := by
      rw [hrows, List.length_cons, List.length_cons]
      omega
    cases hperform.symm.trans (h.upsert_several ha hfew hseveral)

/-- In a serving session that is open and whose connections reach the same database, an upsert does
what it says, and done once more it changes nothing, if its lookup has fewer members than a condition
may have levels. With more of them it is refused. -/
theorem upsert_idempotent {good : Json → Prop} (h : Serving good s) (hopen : s.isClosed = false)
    (hj : s.Joint) (hr : s.router.Connected) (hm : m ∈ s.registry.models)
    {sought changes : List (String × SqlValue)}
    (ha : UpsertArguments m lookup defaults sought changes) :
    ∃ db t, s.database? = some db ∧ db.table? m.tableName = some t ∧
      s.Bounded (.upsert m.name lookup defaults) (lookup.length < levelLimit)
        (s.Upserts m t lookup defaults) := by
  obtain ⟨db, t, hoffers, hfilled⟩ := h.offers hopen hj hr hm
  have hany : m.Filled (fun _ => True) t := hfilled.imp fun _ _ => trivial
  exact ⟨db, t, hoffers.database, hoffers.table, hoffers.upserts h.served.distinct hany ha,
    hoffers.upsert_exceeds ha⟩

/-- The integer two as a number. -/
def two : Number := .integer 2 (by decide)

/-- An upsert of the game with two points creates it, and done once more finds it. -/
theorem upsert_two_points : ∃ record s' s'',
    perform (.upsert "Game" [("score", .number two)] [("player", .string "Ann")]) gameSession =
      .ok (.upserted record true) s' ∧
    perform (.upsert "Game" [("score", .number two)] [("player", .string "Ann")]) s' =
      .ok (.upserted record false) s'' ∧ s'.SameData s'' := by
  have hexact : ∀ f ∈ gameModel.fields, f.kind = .float → ∀ n,
      (f.name, Json.number n) ∈ [("score", Json.number two)] → n.Exact := by
    intro f _ _ n hn
    obtain rfl : n = two := by simpa using congrArg Prod.snd (List.mem_singleton.mp hn)
    exact ⟨⟨false, twoTo 52, 1023, by decide +kernel⟩, by decide +kernel⟩
  have ha : UpsertArguments gameModel [("score", .number two)] [("player", .string "Ann")] _ _ :=
    ⟨rfl, rfl, by decide, hexact⟩
  obtain ⟨db, t, hdb, ht, hbounded⟩ := upsert_idempotent (serving_gameSession fun _ => True) rfl
    rfl Router.connected_default List.mem_cons_self ha
  cases hdb
  cases ht
  obtain ⟨record, s', hperform⟩ : ∃ record s', perform (.upsert "Game" [("score", .number two)]
    [("player", .string "Ann")]) gameSession = .ok (.upserted record true) s' := ⟨_, _, rfl⟩
  obtain ⟨s'', hagain, hsame⟩ := (hbounded.does (by decide)).again record true s' hperform
  exact ⟨record, s', s'', hperform, hagain, hsame⟩

end Session

end RecordStore
