import RecordStore.Proofs.Operation.Planned
import RecordStore.Proofs.Operation.Writes
import RecordStore.Proofs.Model.Records

/-!
# The records that operations answer with

Every record that an operation answers with is the record of a row that the table of its model has
when the operation is done: reading operations change nothing, and writing operations read the
record that they answer with after their last statement.
-/

namespace RecordStore

/-- The records that an answer shows. -/
def Answer.shown : Answer → List Record
  | .record r | .upserted r _ => [r]
  | .records rs => rs
  | .done | .count _ | .truth _ => []

/-- The records that an action yields are those of rows that the table of the model has when the
action is done. -/
def Action.Yields {α : Type} (m : Model) (shown : α → List Record) (action : Action α) : Prop :=
  ∀ ⦃db a db'⦄, action db = .ok a db' → ∀ record ∈ shown a, ∃ t, db'.table? m.tableName = some t ∧
    (m.OwnTable t → ∃ row ∈ t.rows, record = m.recordOf row)

namespace Action

variable {α β : Type} {m : Model} {shown : α → List Record} {shown' : β → List Record}

theorem yields_nothing (action : Action α) : action.Yields m fun _ => [] :=
  fun _ _ _ _ _ hrecord => absurd hrecord List.not_mem_nil

theorem yields_throw (e : StoreError) : (throw e : Action α).Yields m shown := nofun

theorem Yields.map {action : Action α} {f : α → β} (h : action.Yields m shown)
    (hf : ∀ a, ∀ record ∈ shown' (f a), record ∈ shown a) : (f <$> action).Yields m shown' := by
  intro db b db' hrun record hrecord
  obtain ⟨a, haction, rfl⟩ := runMap_eq_ok.mp hrun
  exact h haction record (hf a record hrecord)

/-- What an action yields that is followed by others is what the last of them yields. -/
theorem Yields.bind (x : Action α) {f : α → Action β} (h : ∀ a, (f a).Yields m shown') :
    (x >>= f).Yields m shown' := by
  intro db b db' hrun
  obtain ⟨a, _, _, hrest⟩ := runBind_eq_ok.mp hrun
  exact h a hrest

theorem Yields.transaction {action : Action α} (h : action.Yields m shown) :
    (transaction action).Yields m shown := fun _ _ _ hrun => h (transaction_eq_ok.mp hrun)

end Action

namespace Model

variable {m : Model}

theorem select_table {filter : Option Filter} {keys : List SortKey} {window : Option Window}
    {s : Select} (h : m.select filter keys window = .ok s) :
    s.table = m.tableName ∧ s.columns = m.columns.map Column.name := by
  simp only [select, bind_eq_ok, Except.ok.injEq] at h
  obtain ⟨_, _, _, _, rfl⟩ := h
  exact ⟨rfl, rfl⟩

/-- A reading yields records of rows. -/
theorem yields_fetch (activity : Activity) {s : Select} (htable : s.table = m.tableName)
    (hcolumns : s.columns = m.columns.map Column.name) : (m.fetch activity s).Yields m id := by
  intro db records db' hrun record hrecord
  obtain ⟨rows, db₁, hread, hpure⟩ := runBind_eq_ok.mp hrun
  obtain ⟨hselect, rfl⟩ := Action.read_eq_ok.mp hread
  cases hpure
  obtain ⟨_, t, sorted, ht, hsorted, rfl⟩ := Database.select_eq_ok.mp hselect
  rw [htable] at ht
  refine ⟨t, ht, fun hown => ?_⟩
  simp only [id, List.map_map, List.mem_map, Function.comp_apply] at hrecord
  obtain ⟨row, hrow, rfl⟩ := hrecord
  have hmem : row ∈ t.rows :=
    ((Planner.mem_visit _).mp (sortRows_mem hsorted row (RowWindow.show_sublist.mem hrow))).1
  refine ⟨row, hmem, ?_⟩
  rw [hcolumns, List.map_map]
  exact hown.decode_read hmem

theorem yields_fetchById (activity : Activity) (id : Int64) :
    (m.fetchById activity id).Yields m fun record => [record] := by
  rw [fetchById_eq]
  intro db record db' hrun
  obtain ⟨records, db₁, hfetch, hrest⟩ := runBind_eq_ok.mp hrun
  have hyields := yields_fetch activity rfl rfl hfetch
  split at hrest
  next first rest =>
    cases hrest
    exact fun record hrecord => hyields record
      (List.mem_cons.mpr (.inl (List.mem_singleton.mp hrecord)))
  · cases hrest

/-- What a search for one record answers is among the records that it finds. -/
theorem single_eq_ok {records : List Record} {record : Record} (h : single records = .ok record) :
    record ∈ records := by
  unfold single at h
  split at h
  · cases h
  · cases h
    exact List.mem_singleton_self _
  · cases h

theorem yields_updateAction (s : Option Update) (id : Int64) :
    (m.updateAction s id).Yields m fun record => [record] := by
  have hfetch := m.yields_fetchById .updatingRecord id
  apply Action.Yields.transaction
  cases s with
  | none => exact hfetch
  | some s =>
    refine .bind _ fun changed => ?_
    split
    · exact .bind _ fun _ => hfetch
    · exact hfetch

theorem yields_upsertAction (search : Select) (s : Insert) (changes : List (String × SqlValue)) :
    (m.upsertAction search s changes).Yields m fun result => [result.1] := by
  have hfetch (id : Int64) (created : Bool) : (do
      let record ← m.fetchById .updatingRecord id
      pure (record, created) : Action (Record × Bool)).Yields m fun result => [result.1] := by
    rw [bind_pure_comp]
    exact (yields_fetchById _ id).map fun record other hother => hother
  refine .transaction (.bind _ fun found => ?_)
  split
  · exact .bind _ fun id => hfetch id true
  · refine .bind _ fun id => ?_
    split
    · exact .bind _ fun u => .bind _ fun _ => hfetch id false
    · exact hfetch id false
  · exact Action.yields_throw _

end Model

/-- Every plan of an operation yields records of rows of its model. -/
theorem Operation.planOn_yields {m : Model} {op : Operation} {plan : Plan}
    (h : op.planOn m = .ok plan) : plan.action.Yields m Answer.shown := by
  cases planned_of_planOn h with
  | get => exact (Model.yields_fetchById _ _).map fun _ _ hrecord => hrecord
  | find hs =>
    obtain ⟨htable, hcolumns⟩ := Model.select_table hs
    intro db answer db' hrun record hrecord
    obtain ⟨records, db₁, hfetch, hrest⟩ := runBind_eq_ok.mp hrun
    obtain ⟨found, hlift, rfl⟩ := runMap_eq_ok.mp hrest
    obtain ⟨hsingle, rfl⟩ := runOfExcept_eq_ok.mp hlift
    obtain rfl := List.mem_singleton.mp hrecord
    exact Model.yields_fetch _ htable hcolumns hfetch record (Model.single_eq_ok hsingle)
  | list _ _ _ hs =>
    obtain ⟨htable, hcolumns⟩ := Model.select_table hs
    exact (Model.yields_fetch _ htable hcolumns).map fun _ _ hrecord => hrecord
  | create => exact .map (.bind _ fun id => Model.yields_fetchById _ id) fun _ _ hrecord => hrecord
  | unchanged | update => exact (Model.yields_updateAction _ _).map fun _ _ hrecord => hrecord
  | upsert => exact (Model.yields_upsertAction _ _ _).map fun _ _ hrecord => hrecord
  | delete | createAll | updateAll | deleteAll | count | «exists» =>
    exact (Action.yields_nothing _).map fun _ _ hrecord => hrecord

end RecordStore
