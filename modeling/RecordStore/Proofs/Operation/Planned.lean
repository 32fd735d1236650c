import RecordStore.Proofs.Operation.Actions

/-!
# The plans of operations

An operation that a model accepts runs the action of its kind, with the statements that its arguments
were translated to. `Planned` says once what such a plan is, and what holds of all plans is shown by
its cases.
-/

namespace RecordStore

theorem Operation.cellsOf_eq_ok {m : Model} {allowId : Bool} {record : Record}
    {cells : List (String × SqlValue)} :
    cellsOf m allowId record = .ok cells ↔ m.encode allowId record = .ok cells := mapError_eq_ok

namespace Model

variable {m : Model}

/-- The statement that inserts the row of a record. -/
def statementOf (m : Model) (record : Record) : Except StoreError Insert := do
  pure (m.insert (← Operation.cellsOf m true record))

theorem statementOf_eq_ok {record : Record} {s : Insert} : m.statementOf record = .ok s ↔
    ∃ cells, m.encode true record = .ok cells ∧ s = m.insert cells := by
  simp only [statementOf, bind_eq_ok, Operation.cellsOf_eq_ok, pure, Except.pure, Except.ok.injEq,
    eq_comm (b := s)]

end Model

namespace Operation

/-- The plans that an operation can have on a model. Only a change of one record has two: there may
be nothing to change. -/
inductive Planned (m : Model) : Operation → Plan → Prop
  | get {name : String} {id : Int64} :
      Planned m (.get name id) ⟨.read, .record <$> m.fetchById .fetchingRecord id⟩
  | find {name field : String} {value : Json} {s : Select}
      (hs : m.select (some (.condition ⟨field, .equal, value⟩)) [] (some Model.searchWindow) = .ok s) :
      Planned m (.find name field value) ⟨.read, do
        let records ← m.fetch .fetchingRecord s
        .record <$> MonadExcept.ofExcept (Model.single records)⟩
  | list {name : String} {listing : Listing} {filter : Option Filter} {keys : List SortKey}
      {window : Option Window} {s : Select} (hfilter : listing.filterTree = .ok filter)
      (hkeys : listing.sortKeys = .ok keys) (hwindow : listing.window = .ok window)
      (hs : m.select filter keys window = .ok s) :
      Planned m (.list name listing) ⟨.read, .records <$> m.fetch .fetchingRecords s⟩
  | create {name : String} {record : Record} {cells : List (String × SqlValue)}
      (hc : m.encode true record = .ok cells) :
      Planned m (.create name record) ⟨.write, .record <$> m.createAction (m.insert cells)⟩
  | unchanged {name : String} {id : Int64} {changes : Record} (hc : m.encode false changes = .ok []) :
      Planned m (.update name id changes) ⟨.write, .record <$> m.updateAction none id⟩
  | update {name : String} {id : Int64} {changes : Record} {cells : List (String × SqlValue)}
      {u : Update} (hc : m.encode false changes = .ok cells) (hne : cells ≠ [])
      (hu : m.update cells (some (.byId id)) = .ok u) :
      Planned m (.update name id changes) ⟨.write, .record <$> m.updateAction (some u) id⟩
  | upsert {name : String} {lookup defaults : Record} {sought changes cells : List (String × SqlValue)}
      {search : Select} (hlookup : m.encode true lookup = .ok sought)
      (hdefaults : m.encode false defaults = .ok changes)
      (hsearch : m.select (some (.matching lookup)) [] (some Model.searchWindow) = .ok search)
      (hc : m.encode true (Json.setMembers defaults lookup) = .ok cells) :
      Planned m (.upsert name lookup defaults) ⟨.write, do
        let (record, created) ← m.upsertAction search (m.insert cells) changes
        pure (.upserted record created)⟩
  | delete {name : String} {id : Int64} {s : Delete} (hs : m.delete (some (.byId id)) = .ok s) :
      Planned m (.delete name id) ⟨.write, (fun _ => .done) <$> Model.deleteAction s⟩
  | createAll {name : String} {records : List Record} {statements : List Insert}
      (hs : records.mapM m.statementOf = .ok statements) :
      Planned m (.createAll name records) ⟨.write, .count <$> Model.createAllAction statements⟩
  | updateAll {name : String} {value : Json} {filter : Filter} {changes : Record}
      {cells : List (String × SqlValue)} {u : Update} (hfilter : Filter.ofJson value = .ok filter)
      (hc : m.encode false changes = .ok cells) (hu : m.update cells (some filter) = .ok u) :
      Planned m (.updateAll name value changes)
        ⟨.write, .count <$> Action.change (Action.refusal .updatingRecords) (·.update u)⟩
  | deleteAll {name : String} {value : Json} {filter : Filter} {s : Delete}
      (hfilter : Filter.ofJson value = .ok filter) (hs : m.delete (some filter) = .ok s) :
      Planned m (.deleteAll name value)
        ⟨.write, .count <$> Action.change (Action.refusal .deletingRecords) (·.delete s)⟩
  | count {name : String} {value : Option Json} {filter : Option Filter} {s : Count}
      (hfilter : filterOf value = .ok filter) (hs : m.count filter = .ok s) :
      Planned m (.count name value) ⟨.read, .count <$> Action.read .countingRecords (·.count s)⟩
  | exists {name : String} {value : Option Json} {filter : Option Filter} {s : Exists}
      (hfilter : filterOf value = .ok filter) (hs : m.exists? filter = .ok s) :
      Planned m (.exists name value) ⟨.read, .truth <$> Action.read .checkingRecord (·.exists? s)⟩

variable {m : Model} {op : Operation} {plan : Plan}

theorem planned_of_planOn (h : op.planOn m = .ok plan) : Planned m op plan := by
  cases op with
  | get =>
    cases h
    exact .get
  | find =>
    simp only [planOn, bind_eq_ok, mapError_eq_ok, Except.ok.injEq] at h
    obtain ⟨s, hs, rfl⟩ := h
    exact .find hs
  | list =>
    simp only [planOn, bind_eq_ok, mapError_eq_ok, Except.ok.injEq] at h
    obtain ⟨filter, hfilter, keys, hkeys, window, hwindow, s, hs, rfl⟩ := h
    exact .list hfilter hkeys hwindow hs
  | create =>
    simp only [planOn, bind_eq_ok, cellsOf_eq_ok, Except.ok.injEq] at h
    obtain ⟨cells, hc, rfl⟩ := h
    exact .create hc
  | update =>
    simp only [planOn, bind_eq_ok, cellsOf_eq_ok] at h
    obtain ⟨cells, hc, h⟩ := h
    split at h
    next hnil =>
      subst hnil
      cases h
      exact .unchanged hc
    next hne =>
      simp only [bind_eq_ok, Except.ok.injEq] at h
      obtain ⟨s, hs, rfl⟩ := h
      obtain ⟨u, hu, rfl⟩ := map_eq_ok.mp hs
      exact .update hc hne hu
  | upsert =>
    simp only [planOn, bind_eq_ok, mapError_eq_ok, cellsOf_eq_ok, Except.ok.injEq] at h
    obtain ⟨sought, hlookup, changes, hdefaults, search, hsearch, cells, hc, rfl⟩ := h
    exact .upsert hlookup hdefaults hsearch hc
  | delete =>
    simp only [planOn, bind_eq_ok, mapError_eq_ok, Except.ok.injEq] at h
    obtain ⟨s, hs, rfl⟩ := h
    exact .delete hs
  | createAll =>
    obtain ⟨statements, hs, heq⟩ := bind_eq_ok.mp h
    cases heq
    exact .createAll hs
  | updateAll =>
    simp only [planOn, bind_eq_ok, mapError_eq_ok, cellsOf_eq_ok, Except.ok.injEq] at h
    obtain ⟨filter, hfilter, cells, hc, u, hu, rfl⟩ := h
    exact .updateAll hfilter hc hu
  | deleteAll =>
    simp only [planOn, bind_eq_ok, mapError_eq_ok, Except.ok.injEq] at h
    obtain ⟨filter, hfilter, s, hs, rfl⟩ := h
    exact .deleteAll hfilter hs
  | count =>
    simp only [planOn, bind_eq_ok, mapError_eq_ok, Except.ok.injEq] at h
    obtain ⟨filter, hfilter, s, hs, rfl⟩ := h
    exact .count hfilter hs
  | «exists» =>
    simp only [planOn, bind_eq_ok, mapError_eq_ok, Except.ok.injEq] at h
    obtain ⟨filter, hfilter, s, hs, rfl⟩ := h
    exact .exists hfilter hs

end Operation

end RecordStore
