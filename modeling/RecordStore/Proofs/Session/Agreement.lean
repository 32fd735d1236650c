import RecordStore.Proofs.Session.Offers
import RecordStore.Proofs.Query.Demands

/-!
# Agreement on what matches

Listing, counting, asking for existence, removing and changing by one filter agree on which records
match it. Either the filter is refused, by all of them with the same error, or there is one list of
records: it is listed, it is counted, it is removed, or it is changed, and all other records stay as
they are.
-/

namespace RecordStore

namespace Model

variable (m : Model) (name : String)

/-- The condition that a filter stands for in the statements of a model. -/
def conditionFor (filter : Option Json) : Except QueryError (Option Clause) := do
  m.restriction (← Operation.filterOf filter)

/-- Every operation with a filter compiles it in the same way. -/
theorem planOn_list (filter : Option Json) :
    (Operation.list name ⟨filter, none, none, none⟩).planOn m =
      ((m.conditionFor filter).map fun condition =>
        (⟨.read, .records <$> m.fetch .fetchingRecords (m.selectWhere condition none)⟩ : Plan)).mapError
          .query := by
  have htree : (⟨filter, none, none, none⟩ : Listing).filterTree = Operation.filterOf filter := rfl
  simp only [Operation.planOn, htree, conditionFor]
  cases Operation.filterOf filter with
  | error e => rfl
  | ok f =>
    simp only [ok_bind, mapError_ok, Listing.sortKeys, Listing.window, Model.select]
    cases m.restriction f <;> rfl

theorem planOn_count (filter : Option Json) : (Operation.count name filter).planOn m =
    ((m.conditionFor filter).map fun condition =>
      (⟨.read, .count <$> Action.read .countingRecords (·.count ⟨m.tableName, condition⟩)⟩ :
        Plan)).mapError .query := by
  simp only [Operation.planOn, conditionFor]
  cases Operation.filterOf filter with
  | error e => rfl
  | ok f =>
    simp only [ok_bind, mapError_ok, Model.count]
    cases m.restriction f <;> rfl

theorem planOn_exists (filter : Option Json) : (Operation.exists name filter).planOn m =
    ((m.conditionFor filter).map fun condition =>
      (⟨.read, .truth <$> Action.read .checkingRecord (·.exists? ⟨m.tableName, condition⟩)⟩ :
        Plan)).mapError .query := by
  simp only [Operation.planOn, conditionFor]
  cases Operation.filterOf filter with
  | error e => rfl
  | ok f =>
    simp only [ok_bind, mapError_ok, Model.exists?]
    cases m.restriction f <;> rfl

theorem planOn_deleteAll (value : Json) : (Operation.deleteAll name value).planOn m =
    ((m.conditionFor (some value)).map fun condition =>
      (⟨.write, .count <$> Action.change (Action.refusal .deletingRecords)
        (·.delete ⟨m.tableName, condition⟩)⟩ : Plan)).mapError .query := by
  simp only [Operation.planOn, conditionFor, Operation.filterOf]
  cases Filter.ofJson value with
  | error e => rfl
  | ok f =>
    simp only [ok_bind, mapError_ok, map_ok, Model.delete]
    cases m.restriction (some f) <;> rfl

theorem planOn_updateAll (value : Json) {changes : Record} {cells : List (String × SqlValue)}
    (hc : m.encode false changes = .ok cells) (hne : cells ≠ []) :
    (Operation.updateAll name value changes).planOn m =
      ((m.conditionFor (some value)).map fun condition =>
        (⟨.write, .count <$> Action.change (Action.refusal .updatingRecords)
          (·.update ⟨m.tableName, cells, condition⟩)⟩ : Plan)).mapError .query := by
  simp only [Operation.planOn, conditionFor, Operation.filterOf, Operation.cellsOf, hc]
  cases Filter.ofJson value with
  | error e => rfl
  | ok f =>
    simp only [ok_bind, mapError_ok, map_ok, Model.update, if_neg hne]
    cases m.restriction (some f) <;> rfl

end Model

namespace Session

variable {s : Session} {m : Model} {db : Database} {t : Table}

/-! ## What each operation answers for a condition -/

namespace Views

variable {filter : Option Json} {condition : Option Clause}

section
variable (h : s.Views m .read db t)
include h

theorem exceeds_of_read {op : Operation} {α : Type} {activity : Activity} {f : α → Answer}
    {statement : Database → Except DatabaseFault α} (hop : op.model = m.name)
    (hplan : op.planOn m = .ok ⟨.read, f <$> Action.read activity statement⟩)
    (hexceeds : ∃ cause, cause.isLimit = true ∧ statement db = .error cause) : s.Exceeds op := by
  obtain ⟨cause, hlimit, hstatement⟩ := hexceeds
  have haction : (f <$> Action.read activity statement) db = .error _ db :=
    runMap_eq_error.mpr (Action.read_eq_error.mpr ⟨cause, hstatement, rfl, rfl⟩)
  obtain ⟨s', hfailed⟩ := sameData_of_failure h.get h.database hop hplan haction
  exact ⟨activity, cause, s', hlimit, hfailed⟩

theorem answer_list (hc : m.conditionFor filter = .ok condition)
    (hfits : (m.selectWhere condition none).Fits) :
    s.answer (.list m.name ⟨filter, none, none, none⟩) =
      .ok (.records ((db.planner.visit t condition []).map (m.recordIn t))) := by
  have hplan := m.planOn_list m.name filter
  rw [hc, map_ok, mapError_ok] at hplan
  have hfetch := Model.fetch_recordIn h.table .fetchingRecords hfits
  exact answer_of_action h.get h.database rfl hplan (runMap_eq_ok.mpr ⟨_, hfetch, rfl⟩)

theorem list_exceeds (hc : m.conditionFor filter = .ok condition)
    (hfits : ¬ (m.selectWhere condition none).Fits) :
    s.Exceeds (.list m.name ⟨filter, none, none, none⟩) := by
  have hplan := m.planOn_list m.name filter
  rw [hc, map_ok, mapError_ok, Model.fetch, bind_pure_comp, Functor.map_map] at hplan
  exact h.exceeds_of_read rfl hplan (Database.select_exceeds h.table hfits)

theorem answer_count (hc : m.conditionFor filter = .ok condition)
    (hfits : Fit (Count.demands ⟨m.tableName, condition⟩)) :
    s.answer (.count m.name filter) = .ok (.count (t.matching condition).length) := by
  have hplan := m.planOn_count m.name filter
  rw [hc, map_ok, mapError_ok] at hplan
  have hcount : db.count ⟨m.tableName, condition⟩ = .ok (t.matching condition).length :=
    Database.count_eq_ok.mpr ⟨hfits, t, h.table, rfl⟩
  apply answer_of_action h.get h.database rfl hplan
  exact runMap_eq_ok.mpr ⟨_, Action.read_eq_ok.mpr ⟨hcount, rfl⟩, rfl⟩

theorem count_exceeds (hc : m.conditionFor filter = .ok condition)
    (hfits : ¬ Fit (Count.demands ⟨m.tableName, condition⟩)) : s.Exceeds (.count m.name filter) := by
  have hplan := m.planOn_count m.name filter
  rw [hc, map_ok, mapError_ok] at hplan
  exact h.exceeds_of_read rfl hplan (Database.count_exceeds hfits)

theorem answer_exists (hc : m.conditionFor filter = .ok condition)
    (hfits : (⟨m.tableName, condition⟩ : Exists).Fits) :
    s.answer (.exists m.name filter) = .ok (.truth ((t.matching condition).length ≠ 0)) := by
  have hplan := m.planOn_exists m.name filter
  rw [hc, map_ok, mapError_ok] at hplan
  have hsome : decide ((t.matching condition).length ≠ 0) =
      t.rows.any (Clause.selects condition t) := by
    rw [Bool.eq_iff_iff, decide_eq_true_eq, ne_eq, List.length_eq_zero_iff, Table.matching,
      List.filter_eq_nil_iff, List.any_eq_true]
    simp
  have hexists : db.exists? ⟨m.tableName, condition⟩ =
      .ok (decide ((t.matching condition).length ≠ 0)) :=
    Database.exists?_eq_ok.mpr ⟨hfits, t, h.table, hsome⟩
  apply answer_of_action h.get h.database rfl hplan
  exact runMap_eq_ok.mpr ⟨_, Action.read_eq_ok.mpr ⟨hexists, rfl⟩, rfl⟩

theorem exists_exceeds (hc : m.conditionFor filter = .ok condition)
    (hfits : ¬ (⟨m.tableName, condition⟩ : Exists).Fits) : s.Exceeds (.exists m.name filter) := by
  have hplan := m.planOn_exists m.name filter
  rw [hc, map_ok, mapError_ok] at hplan
  exact h.exceeds_of_read rfl hplan (Database.exists?_exceeds h.table hfits)

end

section
variable (h : s.Views m .write db t)
include h

theorem exceeds_of_change {op : Operation} {activity : Activity}
    {statement : Database → Except DatabaseFault (Database × Nat)} (hop : op.model = m.name)
    (hplan : op.planOn m =
      .ok ⟨.write, .count <$> Action.change (Action.refusal activity) statement⟩)
    (hexceeds : ∃ cause, cause.isLimit = true ∧ statement db = .error cause) : s.Exceeds op := by
  obtain ⟨cause, hlimit, hstatement⟩ := hexceeds
  have haction : (.count <$> Action.change (Action.refusal activity) statement : Action Answer) db =
      .error _ db :=
    runMap_eq_error.mpr (Action.change_eq_error.mpr ⟨cause, hstatement, rfl, rfl⟩)
  obtain ⟨s', hfailed⟩ := sameData_of_failure h.get h.database hop hplan haction
  exact ⟨activity, cause, s', hlimit, hfailed⟩

theorem deleteAll_exceeds {value : Json} (hc : m.conditionFor (some value) = .ok condition)
    (hfits : ¬ Fit (Delete.demands ⟨m.tableName, condition⟩)) :
    s.Exceeds (.deleteAll m.name value) := by
  have hplan := m.planOn_deleteAll m.name value
  rw [hc, map_ok, mapError_ok] at hplan
  exact h.exceeds_of_change rfl hplan (Database.delete_exceeds hfits)

theorem updateAll_exceeds {value : Json} (hc : m.conditionFor (some value) = .ok condition)
    {changes : Record} {cells : List (String × SqlValue)}
    (hcells : m.encode false changes = .ok cells) (hne : cells ≠ [])
    (hfits : ¬ (⟨m.tableName, cells, condition⟩ : Update).Fits) :
    s.Exceeds (.updateAll m.name value changes) := by
  have hplan := m.planOn_updateAll m.name value hcells hne
  rw [hc, map_ok, mapError_ok] at hplan
  exact h.exceeds_of_change rfl hplan (Database.update_exceeds hfits)

end

end Views

namespace Offers

variable (h : s.Offers m db t) {filter : Option Json} {value : Json} {condition : Option Clause}
include h

theorem answer_list (hc : m.conditionFor filter = .ok condition)
    (hfits : (m.selectWhere condition none).Fits) :
    s.answer (.list m.name ⟨filter, none, none, none⟩) =
      .ok (.records ((db.planner.visit t condition []).map m.recordOf)) := by
  rw [(h.views .read).answer_list hc hfits, Model.visit_recordIn h.own]

theorem leaves_deleteAll (hd : DistinctTables s.registry.models)
    (hc : m.conditionFor (some value) = .ok condition)
    (hfits : Fit (Delete.demands ⟨m.tableName, condition⟩)) :
    s.Leaves m (.deleteAll m.name value) (.count (t.matching condition).length)
      ((t.delete condition).1.rows.map m.recordOf) := by
  have hplan := m.planOn_deleteAll m.name value
  rw [hc, map_ok, mapError_ok] at hplan
  have hdelete : db.delete ⟨m.tableName, condition⟩ =
      .ok (db.setTable (t.delete condition).1, (t.matching condition).length) :=
    Database.delete_eq_ok.mpr ⟨hfits, t, h.table, rfl, rfl⟩
  refine h.leaves hd rfl (h.perform_eq_ok rfl hplan ?_) rfl (.deleted condition h.own)
  exact runMap_eq_ok.mpr ⟨_, Action.change_eq_ok.mpr hdelete, rfl⟩

/-- A change of several records violates a constraint, or it changes the rows that meet the
condition where they stand. -/
theorem leaves_updateAll (hd : DistinctTables s.registry.models)
    (hc : m.conditionFor (some value) = .ok condition)
    {changes : Record} {cells : List (String × SqlValue)}
    (hcells : m.encode false changes = .ok cells) (hne : cells ≠ [])
    (hfits : (⟨m.tableName, cells, condition⟩ : Update).Fits) :
    (∃ cause s', cause.isConstraint = true ∧ perform (.updateAll m.name value changes) s =
      .error (.operation (.failed .updatingRecords cause)) s' ∧ s.SameData s') ∨
    s.Leaves m (.updateAll m.name value changes) (.count (t.matching condition).length)
      ((t.mapRows fun row =>
        if Clause.selects condition t row then t.changed cells row else row).rows.map
          m.recordOf) := by
  have hplan := m.planOn_updateAll m.name value hcells hne
  rw [hc, map_ok, mapError_ok] at hplan
  cases hupdate : t.update cells condition with
  | error cause =>
    have hstatement := Database.update_refused hfits h.table hupdate
    refine .inl ⟨cause, _, h.own.update_error hcells hupdate, h.perform_eq_error rfl hplan ?_,
      setDatabase_sameData h.database⟩
    exact runMap_eq_error.mpr (Action.change_eq_error.mpr ⟨cause, hstatement, rfl, rfl⟩)
  | ok found =>
    obtain ⟨t', n⟩ := found
    obtain ⟨rfl, ht'⟩ := Table.update_of_no_id (h.own.assigned?_id hcells) h.own.sorted hupdate
    have hstatement : db.update ⟨m.tableName, cells, condition⟩ =
        .ok (db.setTable t', (t.matching condition).length) :=
      Database.update_eq_ok.mpr ⟨hfits, t, t', h.table, hupdate, rfl⟩
    rw [← ht']
    refine .inr (h.leaves hd rfl (h.perform_eq_ok rfl hplan ?_) (Table.update_name hupdate).1
      (.updated h.own hupdate))
    exact runMap_eq_ok.mpr ⟨_, Action.change_eq_ok.mpr hstatement, rfl⟩

end Offers

/-! ## Agreement -/

/-- Every operation with the filter is refused with the same error, in its plan. -/
structure Refuses (s : Session) (m : Model) (filter : Option Json) (e : QueryError) : Prop where
  list : perform (.list m.name ⟨filter, none, none, none⟩) s = .error (.query e) s
  count : perform (.count m.name filter) s = .error (.query e) s
  exists? : perform (.exists m.name filter) s = .error (.query e) s
  deleteAll : ∀ value, filter = some value →
    perform (.deleteAll m.name value) s = .error (.query e) s
  updateAll : ∀ value changes cells, filter = some value → m.encode false changes = .ok cells →
    changes ≠ [] → perform (.updateAll m.name value changes) s = .error (.query e) s

/-- Of all records of a model, told apart by their keys, every operation with the filter means the
given ones, as far as its statement is within the limits. -/
structure Agrees (s : Session) (m : Model) (filter : Option Json) (condition : Option Clause)
    (all listed : List Record) : Prop where
  everything : s.everythingOf m.name = .ok (.records all)
  keys : all.Pairwise fun a b => Model.keyOf a ≠ Model.keyOf b
  among : listed.Subperm all
  list : s.Bounded (.list m.name ⟨filter, none, none, none⟩) (m.selectWhere condition none).Fits
    (s.answer (.list m.name ⟨filter, none, none, none⟩) = .ok (.records listed))
  count : s.Bounded (.count m.name filter) (Fit (Count.demands ⟨m.tableName, condition⟩))
    (s.answer (.count m.name filter) = .ok (.count listed.length))
  exists? : s.Bounded (.exists m.name filter) (Exists.Fits ⟨m.tableName, condition⟩)
    (s.answer (.exists m.name filter) = .ok (.truth (listed.length ≠ 0)))
  deleteAll : ∀ value, filter = some value →
    s.Bounded (.deleteAll m.name value) (Fit (Delete.demands ⟨m.tableName, condition⟩))
      (s.Leaves m (.deleteAll m.name value) (.count listed.length) (all.filter (· ∉ listed)))
  updateAll : ∀ value changes cells, filter = some value → m.encode false changes = .ok cells →
    changes ≠ [] →
      s.Bounded (.updateAll m.name value changes) (Update.Fits ⟨m.tableName, cells, condition⟩)
        ((∃ cause s', cause.isConstraint = true ∧ perform (.updateAll m.name value changes) s =
          .error (.operation (.failed .updatingRecords cause)) s' ∧ s.SameData s') ∨
        s.Leaves m (.updateAll m.name value changes) (.count listed.length)
          (all.map fun record => if record ∈ listed then m.applied changes record else record))

theorem refuses_of_conditionFor (hget : s.registry.get m.name = .ok m) {filter : Option Json}
    {e : QueryError} (hc : m.conditionFor filter = .error e) : s.Refuses m filter e where
  list := by
    apply perform_of_refused (.list m.name _) hget
    rw [Model.planOn_list, hc]
    rfl
  count := by
    apply perform_of_refused (.count m.name _) hget
    rw [Model.planOn_count, hc]
    rfl
  exists? := by
    apply perform_of_refused (.exists m.name _) hget
    rw [Model.planOn_exists, hc]
    rfl
  deleteAll value heq := by
    apply perform_of_refused (.deleteAll m.name _) hget
    rw [Model.planOn_deleteAll, ← heq, hc]
    rfl
  updateAll value changes cells heq hcells hne := by
    apply perform_of_refused (.updateAll m.name _ _) hget
    rw [m.planOn_updateAll m.name value hcells (mapM_ne_nil hcells hne), ← heq, hc]
    rfl

theorem Offers.agrees (h : s.Offers m db t) (hd : DistinctTables s.registry.models)
    {filter : Option Json} {condition : Option Clause} (hc : m.conditionFor filter = .ok condition) :
    s.Agrees m filter condition (t.rows.map m.recordOf)
      ((db.planner.visit t condition []).map m.recordOf) where
  everything := h.everythingOf
  keys := by
    refine List.pairwise_map.mpr (h.own.sorted.distinct.imp fun {a b} hne heq => hne ?_)
    rw [Model.keyOf_recordOf, Model.keyOf_recordOf] at heq
    exact Except.ok.inj heq
  among := ⟨_, ((db.planner.perm t condition []).map _).symm, List.filter_sublist.map _⟩
  list := ⟨h.answer_list hc, (h.views .read).list_exceeds hc⟩
  count := by
    rw [List.length_map, db.planner.length_visit]
    exact ⟨(h.views .read).answer_count hc, (h.views .read).count_exceeds hc⟩
  exists? := by
    rw [List.length_map, db.planner.length_visit]
    exact ⟨(h.views .read).answer_exists hc, (h.views .read).exists_exceeds hc⟩
  deleteAll value heq := by
    have hrecords : (t.rows.map m.recordOf).filter
        (· ∉ (db.planner.visit t condition []).map m.recordOf) =
          (t.delete condition).1.rows.map m.recordOf := by
      rw [List.filter_map]
      refine congrArg (List.map m.recordOf) (List.filter_congr fun row hrow => ?_)
      have hlisted := m.recordOf_mem_iff h.own.sorted db.planner condition hrow
      simp only [Function.comp_apply, hlisted]
    rw [List.length_map, db.planner.length_visit, hrecords]
    exact ⟨h.leaves_deleteAll hd (heq ▸ hc), (h.views .write).deleteAll_exceeds (heq ▸ hc)⟩
  updateAll value changes cells heq hcells hne := by
    have hsome : cells ≠ [] := mapM_ne_nil hcells hne
    refine ⟨fun hfits => ?_, (h.views .write).updateAll_exceeds (heq ▸ hc) hcells hsome⟩
    refine (h.leaves_updateAll hd (heq ▸ hc) hcells hsome hfits).imp_right fun hleaves => ?_
    rw [List.length_map, db.planner.length_visit, List.map_map]
    have hrecords : (t.rows.map fun row => if Clause.selects condition t row then
        t.changed cells row else row).map m.recordOf = t.rows.map fun row =>
          if m.recordOf row ∈ (db.planner.visit t condition []).map m.recordOf then
            m.applied changes (m.recordOf row) else m.recordOf row := by
      rw [List.map_map]
      apply List.map_congr_left
      intro row hrow
      have hlisted := m.recordOf_mem_iff h.own.sorted db.planner condition hrow
      by_cases hselected : Clause.selects condition t row = true
      · simp only [Function.comp_apply, if_pos hselected, if_pos (hlisted.mpr hselected),
          h.own.recordOf_changed hcells]
      · simp only [Function.comp_apply, if_neg hselected, if_neg (mt hlisted.mp hselected)]
    exact hrecords ▸ hleaves

/-- Asks 499 times for the name of Ann. -/
def longFilter : Json :=
  .object [("$and", .array (List.replicate 499 (.object [("name", .string "Ann")])))]

/-- Asks for one of so many keys. -/
def manyKeys (n : Nat) : Json :=
  .object [("_id", .object [("$in", .array (List.replicate n (.ofInt64 1)))])]

/-- The condition that it stands for. -/
def manyKeysClause (n : Nat) : Clause := .oneOf "_id" (List.replicate n (.integer 1))

theorem conditionFor_manyKeys {n : Nat} (hn : n ≠ 0) :
    uniquePerson.conditionFor (some (manyKeys n)) = .ok (some (manyKeysClause n)) := by
  have hcompiled : uniquePerson.conditionFor (some (manyKeys n)) =
      .ok (some (Condition.membership .id false (List.replicate n (.ofInt64 1)))) := rfl
  have hoperand : Column.id.operand (.ofInt64 1) = .integer 1 := rfl
  have hnumber : (Json.ofInt64 1).isNull = false := rfl
  rw [hcompiled]
  simp [Condition.membership, manyKeysClause, hn, hnumber, hoperand]
  rfl

theorem fit_manyKeys {held : Nat} (hheld : held + 6 ≤ symbolLimit) (n : Nat) :
    Fit ((manyKeysClause n).demands held) ↔ n ≤ parameterLimit := by
  rw [manyKeysClause, Clause.fit_oneOf hheld, List.length_replicate]

/-- The table of the persons has no rows yet. -/
theorem offers_personSession :
    ∃ db t, personSession.Offers uniquePerson db t ∧ t.rows = [] := by
  obtain ⟨db, t, hoffers, _⟩ := (serving_personSession fun _ => True).offers (m := uniquePerson) rfl
    rfl Router.connected_default List.mem_cons_self
  refine ⟨db, t, hoffers, ?_⟩
  have hrows : (personSession.database?.bind (·.table? uniquePerson.tableName)).map Table.rows =
      some [] := rfl
  rw [hoffers.database, Option.bind_some, hoffers.table] at hrows
  exact Option.some.inj hrows

/-- As long as there are not more keys than parameters, nothing is listed. -/
theorem answer_manyKeys {n : Nat} (hn : n ≠ 0) (hfew : n ≤ parameterLimit) :
    personSession.answer (.list "Person" ⟨some (manyKeys n), none, none, none⟩) =
      .ok (.records []) := by
  obtain ⟨db, t, hoffers, hrows⟩ := offers_personSession
  have hfit : Fit (whereDemands 5 (some (manyKeysClause n)) ++ windowDemands none) := by
    rw [windowDemands, List.append_nil]
    exact (fit_manyKeys (by decide) n).mpr hfew
  have hlist := hoffers.answer_list (conditionFor_manyKeys hn)
    (Model.fits_selectWhere.mpr ⟨hoffers.own.narrow, hfit⟩)
  have hnone : t.matching (some (manyKeysClause n)) = [] := by
    rw [Table.matching, hrows, List.filter_nil]
  rwa [db.planner.visit_of_nil hnone] at hlist

end Session

end RecordStore
