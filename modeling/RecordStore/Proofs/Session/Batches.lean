import RecordStore.Proofs.Session.Offers

/-!
# Batches of operations

Operations are performed one after another, until one fails. A step does a batch at once if it
succeeds exactly if all operations of the batch succeed one after another, if it leaves the data that
they leave, and if it changes nothing where it fails. Whether it does is a question about the database
alone: a session reaches the database of its connection before each operation and writes back what the
operation left.
-/

namespace RecordStore

/-- What an operation needs from its connection. -/
def Operation.access : Operation → Access
  | .get _ _ | .find _ _ _ | .list _ _ | .count _ _ | .exists _ _ => .read
  | .create _ _ | .update _ _ _ | .upsert _ _ _ | .delete _ _ | .createAll _ _ | .updateAll _ _ _
  | .deleteAll _ _ => .write

namespace Model

variable {m : Model} {op : Operation} {ops : List Operation} {db db' : Database}

theorem planOn_access {plan : Plan} (h : op.planOn m = .ok plan) : plan.access = op.access := by
  cases Operation.planned_of_planOn h <;> rfl

/-- An operation on a model that answers takes one database to another. -/
def Performs (m : Model) (op : Operation) (db : Database) (answer : Answer) (db' : Database) : Prop :=
  ∃ plan, op.planOn m = .ok plan ∧ plan.action db = .ok answer db'

/-- Operations on a model, all of which succeed, take one database to another. -/
inductive PerformsAll (m : Model) : List Operation → Database → Database → Prop
  | nil (db : Database) : PerformsAll m [] db db
  | cons {op : Operation} {rest : List Operation} {answer : Answer} {db db₁ db' : Database}
      (first : m.Performs op db answer db₁) (others : PerformsAll m rest db₁ db') :
      PerformsAll m (op :: rest) db db'

theorem Performs.unique {answer answer' : Answer} {db'' : Database}
    (h : m.Performs op db answer db') (h' : m.Performs op db answer' db'') :
    answer' = answer ∧ db'' = db' := by
  obtain ⟨plan, hplan, haction⟩ := h
  obtain ⟨_, hplan', haction'⟩ := h'
  cases hplan.symm.trans hplan'
  cases haction.symm.trans haction'
  exact ⟨rfl, rfl⟩

theorem PerformsAll.unique {db'' : Database} (h : m.PerformsAll ops db db')
    (h' : m.PerformsAll ops db db'') : db'' = db' := by
  induction h with
  | nil =>
    cases h'
    rfl
  | cons first _ ih =>
    cases h' with
    | cons first' others' =>
      obtain ⟨_, rfl⟩ := first.unique first'
      exact ih others'

theorem performsAll_cons_iff : m.PerformsAll (op :: ops) db db' ↔
    ∃ answer db₁, m.Performs op db answer db₁ ∧ m.PerformsAll ops db₁ db' := by
  constructor
  · intro h
    cases h with
    | cons first others => exact ⟨_, _, first, others⟩
  · rintro ⟨answer, db₁, first, others⟩
    exact .cons first others

end Model

namespace Session

/-- Performs operations one after another, until one fails. -/
def performAll : List Operation → Step Unit
  | [] => pure ()
  | op :: rest => do
    let _ ← perform op
    performAll rest

/-- A step does operations at once: it succeeds exactly if they do one after another, it gives the
value `value` then and leaves the data that they leave, and where it fails it changes nothing. -/
structure AtOnce {α : Type} (s : Session) (ops : List Operation) (step : Step α) (value : α) :
    Prop where
  succeeds : (∃ v s', step s = .ok v s') ↔ ∃ s', performAll ops s = .ok () s'
  ends : ∀ v s₁ s₂, step s = .ok v s₁ → performAll ops s = .ok () s₂ →
    v = value ∧ s₁.SameData s₂
  refused : ∀ e s', step s = .error e s' → s.SameData s'

/-- What a step gives may be shown in another form. -/
theorem AtOnce.map {α β : Type} {s : Session} {ops : List Operation} {step : Step α} {value : α}
    (h : s.AtOnce ops step value) (f : α → β) : s.AtOnce ops (f <$> step) (f value) := by
  refine ⟨?_, ?_, fun e s' hrun => h.refused e s' (runMap_eq_error.mp hrun)⟩
  · rw [← h.succeeds]
    constructor
    · rintro ⟨_, s', hrun⟩
      obtain ⟨v, hv, _⟩ := runMap_eq_ok.mp hrun
      exact ⟨v, s', hv⟩
    · rintro ⟨v, s', hv⟩
      exact ⟨f v, s', runMap_eq_ok.mpr ⟨v, hv, rfl⟩⟩
  · intro _ s₁ s₂ hrun hall
    obtain ⟨v, hv, rfl⟩ := runMap_eq_ok.mp hrun
    obtain ⟨rfl, hsame⟩ := h.ends v s₁ s₂ hv hall
    exact ⟨rfl, hsame⟩

/-- Only what a step does in the session counts. -/
theorem AtOnce.congr {α : Type} {s : Session} {ops : List Operation} {step step' : Step α} {value : α}
    (h : s.AtOnce ops step value) (heq : step' s = step s) : s.AtOnce ops step' value := by
  constructor
  · rw [heq]
    exact h.succeeds
  · rw [heq]
    exact h.ends
  · rw [heq]
    exact h.refused

/-- The operations change records of the model. -/
def ChangeRecords (m : Model) (ops : List Operation) : Prop :=
  ∀ op ∈ ops, op.model = m.name ∧ op.access = .write

/-- A session can change the records of a model: the connection for the changes leads to a
database. -/
def Reaches (s : Session) (m : Model) (handle : Handle) (db : Database) : Prop :=
  s.Leads (s.connectionOf m .write) handle db

variable {s s' : Session} {m : Model} {op : Operation} {ops : List Operation} {db db' : Database}
variable {handle : Handle}

theorem changeRecords_map {α : Type} {f : α → Operation}
    (hop : op.model = m.name ∧ op.access = .write)
    (hf : ∀ a, (f a).model = m.name ∧ (f a).access = .write) (l : List α) :
    ChangeRecords m (op :: l.map f) := by
  refine List.forall_mem_cons.mpr ⟨hop, fun other hother => ?_⟩
  obtain ⟨a, _, rfl⟩ := List.mem_map.mp hother
  exact hf a

theorem Reaches.setDatabaseAt (h : s.Reaches m handle db) (db' : Database) :
    (s.setDatabaseAt db' handle).Reaches m handle db' := by
  have hrouter := (sameSetup_setDatabaseAt s db' handle).router
  rw [Reaches, connectionOf, hrouter]
  exact Leads.setDatabaseAt h db'

/-- An operation that changes records succeeds exactly if its connection leads to a database and it
succeeds there. -/
theorem perform_eq_ok_iff (hm : s.registry.get m.name = .ok m) (hop : op.model = m.name)
    (hwrites : op.access = .write) {answer : Answer} : perform op s = .ok answer s' ↔
      ∃ handle db db', s.Reaches m handle db ∧ m.Performs op db answer db' ∧
        s' = s.setDatabaseAt db' handle := by
  have hget : s.registry.get op.model = .ok m := hop ▸ hm
  cases hplan : op.planOn m with
  | error e =>
    rw [perform_of_refused op hget hplan]
    constructor
    · intro h
      cases h
    · rintro ⟨_, _, _, _, ⟨plan, hok, _⟩, _⟩
      cases hplan.symm.trans hok
  | ok plan =>
    have hfound : op.plan s.registry = .ok (m, plan) := by
      rw [plan_of_get op hget, hplan]
      rfl
    have haccess : plan.access = .write := (Model.planOn_access hplan).trans hwrites
    rw [perform_of_plan hfound, haccess]
    constructor
    · intro h
      obtain ⟨handle, db, db', hreaches, haction, rfl⟩ := run_eq_ok h
      exact ⟨handle, db, db', hreaches, ⟨plan, hplan, haction⟩, rfl⟩
    · rintro ⟨handle, db, db', hreaches, ⟨_, hok, haction⟩, rfl⟩
      cases hplan.symm.trans hok
      rw [run_of_leads hreaches, haction]

/-- Operations that succeed one after another take the database to the one that they leave. -/
theorem performsAll_of_performAll (hm : s.registry.get m.name = .ok m) (hops : ChangeRecords m ops)
    (hdb : s.Reaches m handle db) (h : performAll ops s = .ok () s') :
    ∃ db', m.PerformsAll ops db db' ∧ (s.setDatabaseAt db' handle).SameData s' := by
  induction ops generalizing s db with
  | nil =>
    cases h
    have hsame := setDatabaseAt_sameData hdb.database
    exact ⟨db, .nil db, fun name => (hsame.database name).symm, fun place =>
      (hsame.files place).symm⟩
  | cons op rest ih =>
    obtain ⟨hop, hrest⟩ := List.forall_mem_cons.mp hops
    obtain ⟨answer, s₁, hperform, hothers⟩ := runBind_eq_ok.mp h
    obtain ⟨_, db₀, db₁, hreaches, hfirst, rfl⟩ := (perform_eq_ok_iff hm hop.1 hop.2).mp hperform
    cases hdb.found.symm.trans hreaches.found
    cases hdb.database.symm.trans hreaches.database
    have hget : (s.setDatabaseAt db₁ handle).registry.get m.name = .ok m :=
      (sameSetup_setDatabaseAt s db₁ handle).registry ▸ hm
    obtain ⟨db', hall, hsame⟩ := ih hget hrest (hdb.setDatabaseAt db₁) hothers
    rw [setDatabaseAt_setDatabaseAt] at hsame
    exact ⟨db', .cons hfirst hall, hsame⟩

theorem performAll_of_performsAll (hm : s.registry.get m.name = .ok m) (hops : ChangeRecords m ops)
    (hdb : s.Reaches m handle db) (h : m.PerformsAll ops db db') :
    ∃ s', performAll ops s = .ok () s' := by
  induction h generalizing s with
  | nil db => exact ⟨s, rfl⟩
  | @cons op rest answer db db₁ db' first _ ih =>
    obtain ⟨hop, hrest⟩ := List.forall_mem_cons.mp hops
    have hperform : perform op s = .ok answer (s.setDatabaseAt db₁ handle) :=
      (perform_eq_ok_iff hm hop.1 hop.2).mpr ⟨handle, db, db₁, hdb, first, rfl⟩
    have hget : (s.setDatabaseAt db₁ handle).registry.get m.name = .ok m :=
      (sameSetup_setDatabaseAt s db₁ handle).registry ▸ hm
    obtain ⟨s', hothers⟩ := ih hget hrest (hdb.setDatabaseAt db₁)
    exact ⟨s', runBind_eq_ok.mpr ⟨answer, _, hperform, hothers⟩⟩

/-- Operations succeed one after another only where their connection leads to a database. -/
theorem reaches_of_performAll (hm : s.registry.get m.name = .ok m) (hops : ChangeRecords m ops)
    (h : performAll ops s = .ok () s') : ops = [] ∨ ∃ handle db, s.Reaches m handle db := by
  cases ops with
  | nil => exact .inl rfl
  | cons op rest =>
    obtain ⟨answer, s₁, hperform, _⟩ := runBind_eq_ok.mp h
    obtain ⟨handle, db, _, hreaches, _⟩ :=
      (perform_eq_ok_iff hm (hops op List.mem_cons_self).1 (hops op List.mem_cons_self).2).mp hperform
    exact .inr ⟨handle, db, hreaches⟩

/-- An operation does a batch at once if it does so in the database. The empty batch succeeds without
a database. -/
theorem atOnce_of_performsAll {bulk : Operation} {answer : Answer} (hs : s.Proper)
    (hm : s.registry.get m.name = .ok m) (hops : ChangeRecords m (bulk :: ops))
    (hempty : ops = [] → ∃ handle db, s.Reaches m handle db)
    (hmany : ∀ name record, bulk ≠ .create name record)
    (hbulk : ∀ handle db db' v, s.Reaches m handle db →
      (m.Performs bulk db v db' ↔ v = answer ∧ m.PerformsAll ops db db')) :
    s.AtOnce ops (perform bulk) answer := by
  obtain ⟨⟨hmodel, hwrites⟩, hops⟩ := List.forall_mem_cons.mp hops
  have hperform : ∀ {v s'}, perform bulk s = .ok v s' ↔ ∃ handle db db', s.Reaches m handle db ∧
      (v = answer ∧ m.PerformsAll ops db db') ∧ s' = s.setDatabaseAt db' handle := by
    intro v s'
    rw [perform_eq_ok_iff hm hmodel hwrites]
    refine exists_congr fun handle => exists_congr fun db => exists_congr fun db' =>
      and_congr_right fun hdb => ?_
    rw [hbulk handle db db' v hdb]
  refine ⟨⟨?_, ?_⟩, ?_, fun e s' h =>
    perform_sameData hs h fun name record hcreate => absurd hcreate (hmany name record)⟩
  · rintro ⟨v, s', h⟩
    obtain ⟨handle, db, db', hdb, ⟨_, hall⟩, _⟩ := hperform.mp h
    exact performAll_of_performsAll hm hops hdb hall
  · rintro ⟨s', h⟩
    obtain ⟨handle, db, hdb⟩ : ∃ handle db, s.Reaches m handle db :=
      (reaches_of_performAll hm hops h).elim hempty id
    obtain ⟨db', hall, _⟩ := performsAll_of_performAll hm hops hdb h
    exact ⟨answer, _, hperform.mpr ⟨handle, db, db', hdb, ⟨rfl, hall⟩, rfl⟩⟩
  · intro v s₁ s₂ h hall
    obtain ⟨handle, db, db', hdb, ⟨rfl, hdone⟩, rfl⟩ := hperform.mp h
    obtain ⟨db₂, hall, hsame⟩ := performsAll_of_performAll hm hops hdb hall
    obtain rfl := hdone.unique hall
    exact ⟨rfl, hsame⟩

end Session

end RecordStore
