import RecordStore.Proofs.Operation.Plans
import RecordStore.Proofs.Query.Meaning
import RecordStore.Proofs.Model.Records

/-!
# How plans fail

Whatever finds fault with the arguments of an operation is done when it is planned. The action of its
plan fails only because of the rows that are there or because the database refuses a statement. The
statements that are built while an action runs select a row by its key or give cells to it, and a
model refuses none of them: the key is a column of every model, a key is not `null`, and cells are
given only if there are any.
-/

namespace RecordStore

namespace StoreError

/-- The errors that find fault with the arguments of an operation. -/
inductive OfArguments : StoreError → Prop
  | query (cause : QueryError) : OfArguments (.query cause)
  | validation (cause : ValidationError) : OfArguments (.validation cause)

/-- The errors that come from the data. -/
inductive OfData : StoreError → Prop
  | recordNotFound : OfData .recordNotFound
  | multipleRecordsFound : OfData .multipleRecordsFound
  | operation (cause : OperationError) : OfData (.operation cause)

theorem OfArguments.not_ofData {e : StoreError} (h : e.OfArguments) : ¬ e.OfData := by
  cases h <;> nofun

end StoreError

namespace Model

variable {m : Model}

/-! ## The failures of actions -/

theorem failsWith_fetch (activity : Activity) (s : Select) :
    (m.fetch activity s).FailsWith StoreError.OfData :=
  .bind (Action.failsWith_read (fun _ => .operation _) _) fun _ => Action.failsWith_pure _

theorem failsWith_fetchById (activity : Activity) (id : Int64) :
    (m.fetchById activity id).FailsWith StoreError.OfData := by
  rw [fetchById_eq]
  apply Action.FailsWith.bind (failsWith_fetch activity _)
  intro records
  split
  · exact Action.failsWith_pure _
  · exact Action.failsWith_throw .recordNotFound

theorem failsWith_createAction (s : Insert) :
    (m.createAction s).FailsWith StoreError.OfData := by
  have hcause : ∀ cause, (creationError cause).OfData := by
    intro cause
    unfold creationError
    split <;> exact .operation _
  exact .bind (Action.failsWith_change hcause _) fun id => failsWith_fetchById _ id

theorem failsWith_updateAction (s : Option Update) (id : Int64) :
    (m.updateAction s id).FailsWith StoreError.OfData := by
  apply Action.FailsWith.transaction
  have hfetch : (m.fetchById .updatingRecord id).FailsWith StoreError.OfData :=
    failsWith_fetchById _ id
  cases s with
  | none => exact hfetch
  | some s =>
    have hrefused : ∀ cause, (Action.refusal .updatingRecord cause).OfData := fun _ => .operation _
    apply Action.FailsWith.bind (Action.failsWith_change hrefused _)
    intro changed
    split
    · exact .bind (Action.failsWith_throw .recordNotFound) fun _ => hfetch
    · exact hfetch

theorem failsWith_keyOf (record : Record) :
    (MonadExcept.ofExcept (keyOf record) : Action Int64).FailsWith StoreError.OfData := by
  apply Action.failsWith_ofExcept
  intro e he
  unfold keyOf at he
  split at he
  · cases he
  · cases he
    exact .recordNotFound

/-- The change of the row that a search found is built while the action runs; its arguments are never
at fault. -/
theorem failsWith_upsertAction (search : Select) (s : Insert) (changes : List (String × SqlValue)) :
    (m.upsertAction search s changes).FailsWith StoreError.OfData := by
  have hfetch (id : Int64) (created : Bool) : (do
      let record ← m.fetchById .updatingRecord id
      pure (record, created) : Action (Record × Bool)).FailsWith StoreError.OfData :=
    .bind (failsWith_fetchById _ id) fun _ => Action.failsWith_pure _
  have hrefused : ∀ cause, (Action.refusal .updatingRecord cause).OfData := fun _ => .operation _
  refine .transaction (.bind (failsWith_fetch _ search) fun found => ?_)
  split
  · exact .bind (Action.failsWith_change hrefused _) fun id => hfetch id true
  · apply Action.FailsWith.bind (failsWith_keyOf _)
    intro id
    split
    next hne =>
      have hbuilt : (MonadExcept.ofExcept (m.update changes (some (.byId id))) :
          Action Update).FailsWith StoreError.OfData := by
        rw [update_byId hne]
        exact Action.failsWith_ofExcept nofun
      apply Action.FailsWith.bind hbuilt
      intro u
      exact .bind (Action.failsWith_change hrefused _) fun _ => hfetch id false
    · exact hfetch id false
  · exact Action.failsWith_throw .multipleRecordsFound

theorem failsWith_deleteAction (s : Delete) : (deleteAction s).FailsWith StoreError.OfData := by
  have hrefused : ∀ cause, (Action.refusal .deletingRecord cause).OfData := fun _ => .operation _
  apply Action.FailsWith.bind (Action.failsWith_change hrefused _)
  intro removed
  split
  · exact Action.failsWith_throw .recordNotFound
  · exact Action.failsWith_pure _

theorem failsWith_createAllAction (statements : List Insert) :
    (createAllAction statements).FailsWith StoreError.OfData := by
  refine .transaction (.bind ?_ fun _ => Action.failsWith_pure _)
  induction statements with
  | nil => exact Action.failsWith_pure _
  | cons first rest ih =>
    have hfirst : (Action.change (Action.refusal .creatingRecords) (·.insert first)).FailsWith
        StoreError.OfData := Action.failsWith_change (fun _ => .operation _) _
    exact .bind (.bind hfirst fun _ => Action.failsWith_pure _) fun _ => ih

theorem failsWith_single (records : List Record) :
    (MonadExcept.ofExcept (single records) : Action Record).FailsWith StoreError.OfData := by
  apply Action.failsWith_ofExcept
  intro e he
  match records with
  | [] =>
    cases he
    exact .recordNotFound
  | [_] => cases he
  | _ :: _ :: _ =>
    cases he
    exact .multipleRecordsFound

end Model

namespace Operation

variable {m : Model}

/-- The action of a plan fails only because of the data. -/
theorem planOn_failsWith {op : Operation} {plan : Plan} (h : op.planOn m = .ok plan) :
    plan.action.FailsWith StoreError.OfData := by
  have hchange {α : Type} (activity : Activity)
      (statement : Database → Except DatabaseFault (Database × α)) :
      (Action.change (Action.refusal activity) statement).FailsWith StoreError.OfData :=
    Action.failsWith_change (fun _ => .operation _) statement
  have hread {α : Type} (activity : Activity) (statement : Database → Except DatabaseFault α) :
      (Action.read activity statement).FailsWith StoreError.OfData :=
    Action.failsWith_read (fun _ => .operation _) statement
  cases planned_of_planOn h with
  | get => exact (Model.failsWith_fetchById _ _).map _
  | find =>
    exact .bind (Model.failsWith_fetch _ _) fun records => (Model.failsWith_single records).map _
  | list => exact (Model.failsWith_fetch _ _).map _
  | create => exact (Model.failsWith_createAction _).map _
  | unchanged | update => exact (Model.failsWith_updateAction _ _).map _
  | upsert => exact .bind (Model.failsWith_upsertAction _ _ _) fun _ => Action.failsWith_pure _
  | delete => exact (Model.failsWith_deleteAction _).map _
  | createAll => exact (Model.failsWith_createAllAction _).map _
  | updateAll | deleteAll => exact (hchange _ _).map _
  | count | «exists» => exact (hread _ _).map _

/-! ## Arguments at fault -/

/-- A step that fails only because of the arguments. -/
def ChecksArguments {α : Type} (x : Except StoreError α) : Prop :=
  ∀ ⦃e : StoreError⦄, x = .error e → e.OfArguments

section
variable {α β : Type}

theorem checksArguments_ok (a : α) : ChecksArguments (.ok a) := nofun

theorem ChecksArguments.bind {x : Except StoreError α} {f : α → Except StoreError β}
    (hx : ChecksArguments x) (hf : ∀ a, ChecksArguments (f a)) : ChecksArguments (x >>= f) := by
  intro e h
  rcases bind_eq_error.mp h with hfirst | ⟨a, _, hrest⟩
  · exact hx hfirst
  · exact hf a hrest

theorem checksArguments_query (x : Except QueryError α) : ChecksArguments (x.mapError .query) := by
  intro e h
  cases x with
  | ok a => cases h
  | error cause =>
    cases h
    exact .query cause

theorem checksArguments_cellsOf (m : Model) (allowId : Bool) (record : Record) :
    ChecksArguments (cellsOf m allowId record) := by
  intro e h
  unfold cellsOf at h
  cases hencode : m.encode allowId record with
  | ok cells =>
    rw [hencode] at h
    cases h
  | error cause =>
    rw [hencode] at h
    cases h
    exact .validation cause

theorem checksArguments_update (m : Model) (cells : List (String × SqlValue))
    (filter : Option Filter) : ChecksArguments (m.update cells filter) := by
  unfold Model.update
  split
  · intro e h
    cases h
    exact .validation .noChanges
  · exact .bind (checksArguments_query _) fun _ => checksArguments_ok _

theorem checksArguments_mapM {f : α → Except StoreError β} (hf : ∀ a, ChecksArguments (f a))
    (as : List α) : ChecksArguments (as.mapM f) := by
  induction as with
  | nil => exact checksArguments_ok []
  | cons a rest ih =>
    rw [List.mapM_cons]
    exact .bind (hf a) fun _ => .bind ih fun _ => checksArguments_ok _

end

/-- An operation that has no plan for a model is at fault in its arguments. -/
theorem planOn_checksArguments (m : Model) (op : Operation) : ChecksArguments (op.planOn m) := by
  cases op with
  | get => exact checksArguments_ok _
  | find =>
    exact .bind (checksArguments_query _) fun _ => checksArguments_ok _
  | list =>
    exact .bind (checksArguments_query _) fun _ => .bind (checksArguments_query _) fun _ =>
      .bind (checksArguments_query _) fun _ => .bind (checksArguments_query _) fun _ =>
        checksArguments_ok _
  | create => exact .bind (checksArguments_cellsOf _ _ _) fun _ => checksArguments_ok _
  | update =>
    refine .bind (checksArguments_cellsOf _ _ _) fun cells => ?_
    split
    · exact checksArguments_ok _
    · exact .bind (.bind (checksArguments_update _ _ _) fun _ => checksArguments_ok _)
        fun _ => checksArguments_ok _
  | upsert =>
    exact .bind (checksArguments_cellsOf _ _ _) fun _ => .bind (checksArguments_cellsOf _ _ _)
      fun _ => .bind (checksArguments_query _) fun _ => .bind (checksArguments_cellsOf _ _ _)
        fun _ => checksArguments_ok _
  | delete => exact .bind (checksArguments_query _) fun _ => checksArguments_ok _
  | createAll =>
    refine .bind (checksArguments_mapM (fun record => ?_) _) fun _ => checksArguments_ok _
    exact .bind (checksArguments_cellsOf _ _ _) fun _ => checksArguments_ok _
  | updateAll =>
    exact .bind (checksArguments_query _) fun _ => .bind (checksArguments_cellsOf _ _ _)
      fun _ => .bind (checksArguments_update _ _ _) fun _ => checksArguments_ok _
  | deleteAll | count | «exists» =>
    exact .bind (checksArguments_query _) fun _ => .bind (checksArguments_query _)
      fun _ => checksArguments_ok _

/-- An operation that has no plan is at fault in its arguments. -/
theorem plan_checksArguments (registry : Registry) (op : Operation) :
    ChecksArguments (op.plan registry) :=
  .bind (checksArguments_query _) fun m => .bind (planOn_checksArguments m op) fun _ =>
    checksArguments_ok _

end Operation

end RecordStore
