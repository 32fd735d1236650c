import RecordStore.Proofs.Operation.Planned
import RecordStore.Proofs.Operation.Writes

/-!
# What plans promise

The plan of an operation runs an action that goes through statements of the model. The statements
store what the records of the operation give, so that whatever such statements keep is kept by the
operation. An action that fails leaves the database as it was, with one exception. A removal is
refused after its statement, but only where the statement removed nothing. A creation reads its
record back after its statement and finds it, since the new row has the key that is asked for, but it
can only read it if the model is narrow.
-/

namespace RecordStore

/-- What a plan promises about its action: the databases before and after it are in a given relation,
and they are the same if it fails, unless it creates a record of a model that is not narrow. -/
structure Plan.Keeps (m : Model) (op : Operation) (R : Database → Database → Prop) (plan : Plan) :
    Prop where
  commits : plan.action.Commits R
  leaves : plan.action.Leaves R
  atomic : (∀ name record, op = .create name record → m.Narrow) → plan.action.Atomic
  reads : plan.access = .read → plan.action.Commits (· = ·)

section
variable {m : Model} {op : Operation} {R : Database → Database → Prop} (hrefl : ∀ db, R db db)
  {action : Action Answer}
include hrefl

theorem Plan.Keeps.ofRead (hr : action.Commits (· = ·)) (ha : action.Atomic) :
    Plan.Keeps m op R ⟨.read, action⟩ :=
  ⟨fun db _ _ hrun => hr hrun ▸ hrefl db, ha.leaves hrefl, fun _ => ha, fun _ => hr⟩

theorem Plan.Keeps.ofWrite (hc : action.Commits R) (ha : action.Atomic) :
    Plan.Keeps m op R ⟨.write, action⟩ := ⟨hc, ha.leaves hrefl, fun _ => ha, nofun⟩

end

namespace Model

variable {m : Model}

theorem atomic_fetch (m : Model) (activity : Activity) (s : Select) :
    (m.fetch activity s).Atomic :=
  (Action.atomic_read _ _).bind (Action.commits_read (fun _ => rfl) _ _) fun _ =>
    Action.atomic_pure _

theorem atomic_fetchById (m : Model) (activity : Activity) (id : Int64) :
    (m.fetchById activity id).Atomic := by
  rw [fetchById_eq]
  apply (m.atomic_fetch _ _).bind (commits_fetch (fun _ => rfl) _ _ _)
  intro records
  split
  · exact Action.atomic_pure _
  · exact Action.atomic_throw _

/-- The condition on a key selects the rows with that key. -/
theorem selectById_selects_iff {t : Table} {row : Row} {id : Int64} :
    Clause.selects (m.selectById id).condition t row = true ↔ row.id = id := by
  have hread : t.read row primaryKey = (some .integer, .integer row.id) := rfl
  simp [selectById, Clause.selects, Clause.holds, hread, SqlValue.compareCell, SqlValue.comparable,
    SqlValue.toNumber, SqlValue.order, Relation.holds, Std.LawfulEqCmp.compare_eq_iff_eq,
    Int64.toInt_inj]

/-- The selection by a key asks for little, unless a row has too many columns. -/
theorem fits_selectById {id : Int64} : (m.selectById id).Fits ↔ m.Narrow := by
  have hcolumns : (m.selectById id).columns.length = m.columns.length := List.length_map _
  have hdemands : (m.selectById id).demands = [.symbols 8, .parameter] := rfl
  constructor
  · intro h
    rw [Narrow, ← hcolumns]
    exact h.columns
  · intro h
    exact ⟨by rw [hdemands]; decide, hcolumns.symm ▸ h, Nat.zero_le _⟩

theorem select_selectById (hm : m.Narrow) {db : Database} {t : Table}
    (ht : db.table? m.tableName = some t) (id : Int64) : db.select (m.selectById id) =
      .ok ((db.planner.visit t (m.selectById id).condition []).map fun row =>
        (m.selectById id).columns.map fun name => (t.read row name).2) :=
  Database.select_eq_ok.mpr ⟨fits_selectById.mpr hm, t, _, ht, rfl, rfl⟩

/-- A record that was created is found by its key. -/
theorem fetchById_of_insert (hm : m.Narrow) {cells : List (String × SqlValue)} {db db' : Database}
    {id : Int64} (h : db.insert (m.insert cells) = .ok (db', id)) (activity : Activity) :
    ∃ record, m.fetchById activity id db' = .ok record db' := by
  obtain ⟨t, t', _, hi, ht'⟩ := Database.insert_table h
  obtain ⟨_, heq⟩ := Table.insert_eq_ok hi
  have hselect := select_selectById hm ht' id
  have hrow : ⟨id, t.newCells cells⟩ ∈ db'.planner.visit t' (m.selectById id).condition [] := by
    refine db'.planner.mem_visit.mpr ⟨?_, selectById_selects_iff.mpr rfl⟩
    rw [heq]
    exact Table.mem_insertRow.mpr (.inl rfl)
  obtain ⟨first, rest, hrows⟩ := List.exists_cons_of_ne_nil (List.ne_nil_of_mem hrow)
  rw [hrows] at hselect
  have hfetch : m.fetch activity (m.selectById id) db' = .ok _ db' :=
    runBind_eq_ok.mpr ⟨_, _, Action.read_eq_ok.mpr ⟨hselect, rfl⟩, rfl⟩
  rw [fetchById_eq]
  exact ⟨_, runBind_eq_ok.mpr ⟨_, _, hfetch, rfl⟩⟩

/-- No record is read whose row has too many columns. -/
theorem fetchById_of_wide (hm : ¬ m.Narrow) {db : Database} {t : Table}
    (ht : db.table? m.tableName = some t) (activity : Activity) (id : Int64) :
    m.fetchById activity id db =
      .error (Action.refusal activity (.tooManyTerms "columns in result set")) db := by
  have hdemands : (m.selectById id).demands = [.symbols 8, .parameter] := rfl
  have hcolumns : columnLimit < (m.selectById id).columns.length := by
    rw [show (m.selectById id).columns.length = m.columns.length from List.length_map _]
    exact Nat.lt_of_not_le hm
  have htable : db.table (m.selectById id).table = .ok t := Database.table_eq_ok.mpr ht
  have hselect : db.select (m.selectById id) = .error (.tooManyTerms "columns in result set") := by
    rw [Database.select, readText_eq_ok.mpr (by rw [hdemands]; decide), ok_bind, htable, ok_bind,
      checkSize, if_pos hcolumns, error_bind]
  have hread : m.fetch activity (m.selectById id) db = .error _ db :=
    runBind_eq_error.mpr (.inl (Action.read_eq_error.mpr ⟨_, hselect, rfl, rfl⟩))
  rw [fetchById_eq]
  exact runBind_eq_error.mpr (.inl hread)

/-- A creation that is refused has added nothing, or it has added a row that is not read. -/
theorem createAction_eq_error {cells : List (String × SqlValue)} {db db' : Database} {e : StoreError}
    (h : m.createAction (m.insert cells) db = .error e db') : db' = db ∨
      ¬ m.Narrow ∧ e = Action.refusal .creatingRecord (.tooManyTerms "columns in result set") ∧
        ∃ id, db.insert (m.insert cells) = .ok (db', id) := by
  rcases runBind_eq_error.mp h with hchange | ⟨id, db₁, hchange, hfetch⟩
  · obtain ⟨_, _, _, rfl⟩ := Action.change_eq_error.mp hchange
    exact .inl rfl
  · have hinsert := Action.change_eq_ok.mp hchange
    by_cases hm : m.Narrow
    · obtain ⟨record, hfound⟩ := fetchById_of_insert hm hinsert .creatingRecord
      rw [hfound] at hfetch
      cases hfetch
    · obtain ⟨_, t', _, _, ht'⟩ := Database.insert_table hinsert
      rw [fetchById_of_wide hm ht'] at hfetch
      cases hfetch
      exact .inr ⟨hm, rfl, id, hinsert⟩

/-- A row of too many columns is added and not read. -/
theorem createAction_of_wide (hm : ¬ m.Narrow) {cells : List (String × SqlValue)} {db db' : Database}
    {id : Int64} (h : db.insert (m.insert cells) = .ok (db', id)) :
    m.createAction (m.insert cells) db =
      .error (Action.refusal .creatingRecord (.tooManyTerms "columns in result set")) db' := by
  obtain ⟨_, t', _, _, ht'⟩ := Database.insert_table h
  exact runBind_eq_error.mpr
    (.inr ⟨id, db', Action.change_eq_ok.mpr h, fetchById_of_wide hm ht' _ _⟩)

theorem leaves_createAction {R : Database → Database → Prop} (hrefl : ∀ db, R db db) {s : Insert}
    (hs : ∀ db db' id, db.insert s = .ok (db', id) → R db db') : (m.createAction s).Leaves R := by
  intro db e db' hd hrun
  rcases runBind_eq_error.mp hrun with hchange | ⟨id, db₁, hchange, hfetch⟩
  · exact Action.atomic_change _ _ hd hchange ▸ hrefl db
  · have hinserted := Action.change_eq_ok.mp hchange
    have hsame : db' = db₁ :=
      atomic_fetchById m _ id (Database.insert_distinctNames hd hinserted) hfetch
    exact hsame ▸ hs _ _ _ hinserted

theorem atomic_createAction (hm : m.Narrow) (cells : List (String × SqlValue)) :
    (m.createAction (m.insert cells)).Atomic := by
  intro db e db' hd hrun
  rcases runBind_eq_error.mp hrun with hchange | ⟨id, db₁, hchange, hfetch⟩
  · exact Action.atomic_change _ _ hd hchange
  · obtain ⟨record, hfound⟩ :=
      fetchById_of_insert hm (Action.change_eq_ok.mp hchange) .creatingRecord
    rw [hfound] at hfetch
    cases hfetch

/-- A removal that is refused has removed nothing. -/
theorem atomic_deleteAction (s : Delete) : (deleteAction s).Atomic := by
  intro db e db' hd hrun
  rcases runBind_eq_error.mp hrun with hchange | ⟨removed, db₁, hchange, hrest⟩
  · exact Action.atomic_change _ _ hd hchange
  · split at hrest
    next hzero =>
      obtain ⟨_, t, ht, hn, rfl⟩ := Database.delete_eq_ok.mp (Action.change_eq_ok.mp hchange)
      have hnone : t.matching s.condition = [] := List.eq_nil_of_length_eq_zero (hn ▸ hzero)
      cases hrest
      rw [Table.delete_of_matching_eq_nil hnone, Database.setTable_table? hd ht]
    next => cases hrest

end Model

namespace Operation

variable {m : Model}

/-- The records that an operation may store. -/
def records : Operation → List Record
  | .create _ record => [record]
  | .update _ _ changes => [changes]
  | .upsert _ lookup defaults => [defaults, Json.setMembers defaults lookup]
  | .createAll _ records => records
  | .updateAll _ _ changes => [changes]
  | .get _ _ | .find _ _ _ | .list _ _ | .delete _ _ | .deleteAll _ _ | .count _ _
  | .exists _ _ => []

/-- The records that an operation may create rows for. -/
def created : Operation → List Record
  | .create _ record => [record]
  | .createAll _ records => records
  | .upsert _ lookup defaults => [Json.setMembers defaults lookup]
  | _ => []

/-- The changes that an operation may make to rows. -/
def changes : Operation → Option Record
  | .update _ _ changes | .updateAll _ _ changes | .upsert _ _ changes => some changes
  | _ => none

/-- Whether an operation may remove rows. -/
def removes : Operation → Bool
  | .delete _ _ | .deleteAll _ _ => true
  | _ => false

theorem mem_records_of_created {op : Operation} {record : Record} (h : record ∈ op.created) :
    record ∈ op.records := by
  cases op with
  | create | createAll => exact h
  | upsert => exact List.mem_cons_of_mem _ h
  | _ => exact absurd h List.not_mem_nil

theorem mem_records_of_changes {op : Operation} {record : Record} (h : record ∈ op.changes) :
    record ∈ op.records := by
  cases op with
  | update | updateAll =>
    cases h
    exact List.mem_singleton_self _
  | upsert =>
    cases h
    exact List.mem_cons_self
  | _ => cases h

/-- An operation that removes rows creates none. -/
theorem removes_of_created {op : Operation} {record : Record} (h : record ∈ op.created) :
    op.removes = false := by
  cases op with
  | delete | deleteAll => exact absurd h List.not_mem_nil
  | _ => rfl

/-- A relation between databases that the statements of an operation keep, one after another. -/
structure Covers (R : Database → Database → Prop) (m : Model) (op : Operation) : Prop where
  refl : ∀ db, R db db
  trans : ∀ a b c, R a b → R b c → R a c
  insert : ∀ record ∈ op.created, ∀ cells, m.encode true record = .ok cells →
    ∀ db db' id, db.insert (m.insert cells) = .ok (db', id) → R db db'
  update : ∀ record ∈ op.changes, ∀ cells, m.encode false record = .ok cells →
    ∀ filter s, m.update cells filter = .ok s → ∀ db db' n, db.update s = .ok (db', n) → R db db'
  delete : op.removes = true →
    ∀ filter s, m.delete filter = .ok s → ∀ db db' n, db.delete s = .ok (db', n) → R db db'

theorem covers_writesAll (m : Model) (op : Operation) : op.Covers m.WritesAll m where
  refl := Model.WritesAll.refl
  trans _ _ _ hab hbc := hab.trans hbc
  insert _ _ _ hc := Model.WritesAll.insert hc
  update _ _ _ hc _ _ hs := Model.WritesAll.update hc hs
  delete _ _ _ hs := Model.WritesAll.delete hs

variable {R : Database → Database → Prop}

/-- A change of one record, which may have nothing to change. -/
theorem updateAction_keeps {op : Operation} (hrefl : ∀ db, R db db)
    (htrans : ∀ a b c, R a b → R b c → R a c)
    {s : Option Update} {id : Int64}
    (hs : ∀ u ∈ s, ∀ db db' n, db.update u = .ok (db', n) → R db db') :
    Plan.Keeps m op R ⟨.write, .record <$> m.updateAction s id⟩ := by
  have hcommits : (m.updateAction s id).Commits R := Model.commits_updateAction hrefl htrans hs
  exact .ofWrite hrefl (hcommits.map _) ((Action.atomic_transaction _).map _)

/-- Every plan of an operation on a model keeps its promises. -/
theorem planOn_keeps {op : Operation} {plan : Plan} (hR : op.Covers R m)
    (h : op.planOn m = .ok plan) : plan.Keeps m op R := by
  have hrefl := hR.refl
  have htrans := hR.trans
  cases planned_of_planOn h with
  | get =>
    exact .ofRead hrefl ((Model.commits_fetchById (fun _ => rfl) _ _ _).map _)
      ((m.atomic_fetchById _ _).map _)
  | find =>
    refine .ofRead hrefl (.bind (fun _ _ _ => .trans) (Model.commits_fetch (fun _ => rfl) _ _ _) ?_)
      (.bind (m.atomic_fetch _ _) (Model.commits_fetch (fun _ => rfl) _ _ _) ?_)
    · exact fun records => (Action.commits_ofExcept (fun _ => rfl) _).map _
    · exact fun records => (Action.atomic_ofExcept _).map _
  | list =>
    exact .ofRead hrefl ((Model.commits_fetch (fun _ => rfl) _ _ _).map _) ((m.atomic_fetch _ _).map _)
  | @create _ record cells hc =>
    have hinsert := hR.insert record (List.mem_singleton_self _) cells hc
    exact ⟨(Model.commits_createAction hrefl htrans hinsert).map _,
      (Model.leaves_createAction hrefl hinsert).map _,
      fun hm => (Model.atomic_createAction (hm _ record rfl) cells).map _, nofun⟩
  | unchanged => exact updateAction_keeps hrefl htrans nofun
  | @update _ _ changes cells u hc _ hu =>
    refine updateAction_keeps hrefl htrans fun found hmem => ?_
    cases hmem
    exact hR.update changes rfl cells hc _ u hu
  | @upsert _ _ defaults _ changes cells search _ hdefaults _ hc =>
    have hcommits : (m.upsertAction search (m.insert cells) changes).Commits R :=
      Model.commits_upsertAction hrefl htrans
        (hR.insert _ (List.mem_singleton_self _) cells hc)
        fun u filter hu => hR.update defaults rfl changes hdefaults filter u hu
    refine .ofWrite hrefl (.bind htrans hcommits ?_) ((Action.atomic_transaction _).map _)
    exact fun _ => Action.commits_pure hrefl _
  | @delete _ _ s hs =>
    have hcommits := Model.commits_deleteAction hrefl htrans (hR.delete rfl _ s hs)
    exact .ofWrite hrefl (hcommits.map _) ((Model.atomic_deleteAction s).map _)
  | @createAll _ records statements hs =>
    have hinsert : ∀ s ∈ statements, ∀ db db' id, db.insert s = .ok (db', id) → R db db' := by
      intro s hmem
      obtain ⟨record, hin, hrecord⟩ := mem_of_mapM hs hmem
      obtain ⟨cells, hc, rfl⟩ := Model.statementOf_eq_ok.mp hrecord
      exact hR.insert record hin cells hc
    exact .ofWrite hrefl ((Model.commits_createAllAction hrefl htrans hinsert).map _)
      ((Action.atomic_transaction _).map _)
  | @updateAll _ _ _ changes cells u _ hc hu =>
    have hupdate := hR.update changes rfl cells hc _ u hu
    exact .ofWrite hrefl ((Action.commits_change hupdate).map _) ((Action.atomic_change _ _).map _)
  | @deleteAll _ _ _ s _ hs =>
    have hdelete := hR.delete rfl _ s hs
    exact .ofWrite hrefl ((Action.commits_change hdelete).map _) ((Action.atomic_change _ _).map _)
  | count | «exists» =>
    exact .ofRead hrefl ((Action.commits_read (fun _ => rfl) _ _).map _)
      ((Action.atomic_read _ _).map _)

end Operation

end RecordStore
