import RecordStore.Proofs.Query.Keys
import RecordStore.Proofs.Session.History

/-!
# Operations with a refused filter

An operation with a filter of its caller answers with a query error exactly if the model refuses the
filter, and then it is refused in its plan: no row is read, changed or removed. A filter that
restricts nothing is never refused, whatever columns it names. A removal with such a filter removes
all records.
-/

namespace RecordStore

/-- The failures of an action are those of the database. -/
def Action.FailsInDatabase {α : Type} (action : Action α) : Prop :=
  ∀ ⦃db e db'⦄, action db = .error e db' → ∃ cause, e = .operation cause

namespace Action

variable {α β : Type}

theorem FailsInDatabase.map {action : Action α} (h : action.FailsInDatabase) (f : α → β) :
    (f <$> action).FailsInDatabase := FailsWith.map h f

theorem failsInDatabase_read (activity : Activity)
    (statement : Database → Except DatabaseFault α) :
    (read activity statement).FailsInDatabase := failsWith_read (fun _ => ⟨_, rfl⟩) statement

theorem failsInDatabase_change (activity : Activity)
    (statement : Database → Except DatabaseFault (Database × α)) :
    (change (refusal activity) statement).FailsInDatabase :=
  failsWith_change (fun _ => ⟨_, rfl⟩) statement

end Action

namespace Operation

/-- The operations with a filter of their caller. A change of several records has to have cells that
the model accepts. -/
inductive FilteredBy (m : Model) (value : Json) : Operation → Prop
  | list {name : String} {listing : Listing} (h : listing.filter = some value) :
      FilteredBy m value (.list name listing)
  | count {name : String} : FilteredBy m value (.count name (some value))
  | exists {name : String} : FilteredBy m value (.exists name (some value))
  | updateAll {name : String} {changes : Record} {cells : List (String × SqlValue)}
      (hc : m.encode false changes = .ok cells) (hne : cells ≠ []) :
      FilteredBy m value (.updateAll name value changes)
  | deleteAll {name : String} : FilteredBy m value (.deleteAll name value)

/-- The order and the page of a listing are accepted by the model. -/
def Arranged (m : Model) : Operation → Prop
  | .list _ listing => (∃ keys, listing.sortKeys = .ok keys ∧ ∃ order,
      keys.mapM m.orderTerm = .ok order) ∧ ∃ window, listing.window = .ok window
  | _ => True

variable {m : Model} {value : Json} {f : Filter} {op : Operation}

theorem filterOf_eq_ok (hf : Filter.ofJson value = .ok f) : filterOf (some value) = .ok (some f) := by
  rw [filterOf, hf]
  rfl

theorem filterTree_eq_ok (hf : Filter.ofJson value = .ok f) {listing : Listing}
    (h : listing.filter = some value) : listing.filterTree = .ok (some f) := by
  rw [Listing.filterTree, h]
  exact filterOf_eq_ok hf

/-- An operation whose filter the model refuses has no plan. -/
theorem planOn_of_restriction_error (hf : Filter.ofJson value = .ok f)
    (hop : op.FilteredBy m value) {e : QueryError} (hr : m.restriction (some f) = .error e) :
    ∃ e, op.planOn m = .error (.query e) := by
  cases hop with
  | @list _ listing h =>
    have hselect (keys : List SortKey) (window : Option Window) :
        m.select (some f) keys window = .error e := by
      simp only [Model.select, hr, error_bind]
    simp only [planOn, filterTree_eq_ok hf h, mapError_ok, ok_bind]
    cases listing.sortKeys with
    | error cause => exact ⟨cause, rfl⟩
    | ok keys =>
      cases listing.window with
      | error cause => exact ⟨cause, rfl⟩
      | ok window => exact ⟨e, by simp only [hselect, mapError_ok, mapError_error, ok_bind, error_bind]⟩
  | count =>
    refine ⟨e, ?_⟩
    simp only [planOn, filterOf_eq_ok hf, Model.count, hr, mapError_ok, mapError_error, ok_bind,
      error_bind]
  | «exists» =>
    refine ⟨e, ?_⟩
    simp only [planOn, filterOf_eq_ok hf, Model.exists?, hr, mapError_ok, mapError_error, ok_bind,
      error_bind]
  | updateAll hc hne =>
    refine ⟨e, ?_⟩
    simp only [planOn, hf, cellsOf, hc, Model.update, if_neg hne, hr, mapError_ok, mapError_error,
      ok_bind, error_bind]
  | deleteAll =>
    refine ⟨e, ?_⟩
    simp only [planOn, hf, Model.delete, hr, mapError_ok, mapError_error, ok_bind, error_bind]

/-- An operation whose filter the model compiles has a plan, which only the database can fail. -/
theorem planOn_of_restriction_ok (hf : Filter.ofJson value = .ok f)
    (hop : op.FilteredBy m value) (ha : op.Arranged m) {condition : Option Clause}
    (hr : m.restriction (some f) = .ok condition) :
    ∃ plan, op.planOn m = .ok plan ∧ plan.action.FailsInDatabase := by
  cases hop with
  | list h =>
    obtain ⟨⟨keys, hkeys, order, horder⟩, window, hwindow⟩ := ha
    refine ⟨⟨.read, .records <$> m.fetch .fetchingRecords
      ⟨m.tableName, m.columns.map Column.name, condition, order, window.map Window.toRows⟩⟩, ?_, ?_⟩
    · simp only [planOn, filterTree_eq_ok hf h, hkeys, hwindow, Model.select, hr, horder,
        mapError_ok, ok_bind]
    · refine Action.FailsInDatabase.map (fun _ _ _ hrun => ?_) _
      rcases runBind_eq_error.mp hrun with hread | ⟨_, _, _, hpure⟩
      · exact Action.failsInDatabase_read _ _ hread
      · cases hpure
  | count =>
    refine ⟨⟨.read, .count <$> Action.read .countingRecords (·.count ⟨m.tableName, condition⟩)⟩, ?_,
      (Action.failsInDatabase_read _ _).map _⟩
    simp only [planOn, filterOf_eq_ok hf, Model.count, hr, mapError_ok, ok_bind]
  | «exists» =>
    refine ⟨⟨.read, .truth <$> Action.read .checkingRecord (·.exists? ⟨m.tableName, condition⟩)⟩, ?_,
      (Action.failsInDatabase_read _ _).map _⟩
    simp only [planOn, filterOf_eq_ok hf, Model.exists?, hr, mapError_ok, ok_bind]
  | @updateAll _ _ cells hc hne =>
    refine ⟨⟨.write, .count <$> Action.change (Action.refusal .updatingRecords)
      (·.update ⟨m.tableName, cells, condition⟩)⟩, ?_, (Action.failsInDatabase_change _ _).map _⟩
    simp only [planOn, hf, cellsOf, hc, Model.update, if_neg hne, hr, mapError_ok, ok_bind]
  | deleteAll =>
    refine ⟨⟨.write, .count <$> Action.change (Action.refusal .deletingRecords)
      (·.delete ⟨m.tableName, condition⟩)⟩, ?_, (Action.failsInDatabase_change _ _).map _⟩
    simp only [planOn, hf, Model.delete, hr, mapError_ok, ok_bind]

end Operation

namespace Session

variable {s s' : Session} {op : Operation} {m : Model} {value : Json} {f : Filter}

/-- Running a planned action fails with a query error only if the action does. -/
theorem run_ne_query {α : Type} {connection : String} {action : Action α}
    (h : action.FailsInDatabase) (e : QueryError) : run connection action s ≠ .error (.query e) s' := by
  intro hrun
  rcases run_failsWith h hrun with ⟨cause, hcause⟩ | ⟨cause, hcause⟩
  · cases hcause
  · cases hcause

/-- In whatever state of a session, an operation with a filter that the model refuses answers with a
query error, before anything is read or changed. With a filter that the model does not refuse, no
operation does so, and in particular none with a filter that restricts nothing. -/
theorem perform_of_filter (hm : s.registry.get op.model = .ok m) (hf : Filter.ofJson value = .ok f)
    (hop : op.FilteredBy m value) :
    (Filter.RefusedBy m value f →
      ∃ e, op.plan s.registry = .error (.query e) ∧ perform op s = .error (.query e) s) ∧
    (¬ Filter.RefusedBy m value f → op.Arranged m →
      ∀ e s', perform op s ≠ .error (.query e) s') := by
  rw [← Filter.restriction_refused_iff hf]
  constructor
  · rintro ⟨cause, hr⟩
    obtain ⟨e, hplanOn⟩ := Operation.planOn_of_restriction_error hf hop hr
    have hplan : op.plan s.registry = .error (.query e) := by
      rw [plan_of_get op hm, hplanOn]
      rfl
    exact ⟨e, hplan, perform_of_fault hplan⟩
  · intro hr ha e s' hperform
    cases hrestriction : m.restriction (some f) with
    | error cause => exact hr ⟨cause, hrestriction⟩
    | ok condition =>
      obtain ⟨plan, hplanOn, hfails⟩ := Operation.planOn_of_restriction_ok hf hop ha hrestriction
      have hplan : op.plan s.registry = .ok (m, plan) := by
        rw [plan_of_get op hm, hplanOn]
        rfl
      rw [perform_of_plan hplan] at hperform
      exact run_ne_query hfails e hperform

/-- A filter with a misspelled column below a disjunction. -/
def misspelledFilter : Json :=
  .object [("$or", .array [.object [("name", .string "Ann")], .object [("nmae", .string "Bob")]])]

/-- The misspelled column is found, also by a session that is not open. -/
theorem perform_misspelled :
    ∃ e, perform (.deleteAll "Person" misspelledFilter) uniqueSession =
      .error (.query e) uniqueSession := by
  obtain ⟨m, hm⟩ : ∃ m, uniqueSession.registry.get "Person" = .ok m := ⟨_, rfl⟩
  obtain ⟨f, hf⟩ : ∃ f, Filter.ofJson misspelledFilter = .ok f := ⟨_, rfl⟩
  have hrefused : Filter.RefusedBy m misspelledFilter f := by
    cases hm
    cases hf
    exact ⟨rfl, "nmae", .string "Bob", by decide, .inl ⟨rfl, nofun⟩⟩
  obtain ⟨e, _, hperform⟩ := (perform_of_filter hm hf .deleteAll).1 hrefused
  exact ⟨e, hperform⟩

/-- A removal with a filter that restricts nothing removes all records, whatever columns the filter
names. -/
theorem deleteAll_of_unrestricted {name : String} (hm : s.registry.get name = .ok m)
    (hf : Filter.ofJson value = .ok f) (hu : f.isUnrestricted = true) (hj : s.Joint)
    (hw : Known (s.router.forWrite m)) {db : Database} (hdb : s.database? = some db) {t : Table}
    (ht : db.table? m.tableName = some t) :
    perform (.deleteAll name value) s =
      .ok (.count t.rows.length) (s.setDatabase (db.setTable { t with rows := [] })) := by
  have hplan : (Operation.deleteAll name value).plan s.registry = .ok (m, ⟨.write, .count <$>
      Action.change (Action.refusal .deletingRecords) (·.delete ⟨m.tableName, none⟩)⟩) := by
    rw [plan_of_get (.deleteAll name value) hm]
    simp only [Operation.planOn, hf, Model.delete, Model.restriction, if_pos hu, mapError_ok,
      ok_bind, map_ok]
  have hdelete : db.delete ⟨m.tableName, none⟩ =
      .ok (db.setTable { t with rows := [] }, t.rows.length) :=
    Database.delete_eq_ok.mpr ⟨.nil, t, ht, by rw [t.matching_none], by rw [t.delete_none]⟩
  have haction : (.count <$> Action.change (Action.refusal .deletingRecords)
      (·.delete ⟨m.tableName, none⟩) : Action Answer) db =
        .ok (.count t.rows.length) (db.setTable { t with rows := [] }) :=
    runMap_eq_ok.mpr ⟨_, Action.change_eq_ok.mpr hdelete, rfl⟩
  exact perform_of_action hplan hj hw hdb haction

/-- One misspelled column beside an empty part, and the record of another name is removed. -/
example : ∃ s', perform (.deleteAll "Person" (.object [("$or", .array
    [.object [], .object [("nmae", .string "Bob")]])]))
      ((uniqueSession.after .init).after (.operation (.create "Person" [("name", .string "Ann")]))) =
        .ok (.count 1) s' := ⟨_, rfl⟩

end Session

end RecordStore
