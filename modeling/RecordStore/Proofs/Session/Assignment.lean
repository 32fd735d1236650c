import RecordStore.Proofs.Operation.Answers
import RecordStore.Proofs.Session.Offers
import RecordStore.Proofs.Session.Remembering
import RecordStore.Proofs.Model.Creation

/-!
# Keys are neither used again nor changed

A record that is created without a key gets one above all keys that rows of its model have had since
the database was created. Several records that are created together get them one after another, each
above those before it. The keys of rows that are there do not change: an operation that does not
remove rows leaves each of them under its key, and only the operations that create records leave
rows under other keys.
-/

namespace RecordStore

/-- A key is positive and above all keys that were held. -/
def Above (held : Int64 → Prop) (id : Int64) : Prop := 1 ≤ id ∧ ∀ old, held old → old < id

/-- The keys that records get one after another: each is held from then on, and a record without a
key gets one above all keys that were held before. -/
inductive Assigns : (Int64 → Prop) → List Record → List Int64 → Prop
  | nil (held : Int64 → Prop) : Assigns held [] []
  | cons {held : Int64 → Prop} {record : Record} {records : List Record} {id : Int64}
      {ids : List Int64} (hnew : Json.member? record primaryKey = none → Above held id)
      (hrest : Assigns (fun old => old = id ∨ held old) records ids) :
      Assigns held (record :: records) (id :: ids)

namespace Model

variable {m : Model} {t t' : Table} {db db' : Database} {record created : Record}
variable {cells : List (String × SqlValue)} {held : Int64 → Prop}

/-- A record without a key gets one above the counter, which has reached all keys that were held. -/
theorem above_of_insert (hown : m.OwnTable t) (hbounded : t.Bounded)
    (hreached : ∀ old, held old → old.toInt ≤ t.sequence.toInt)
    (hc : m.encode true record = .ok cells) {name : String} {id : Int64}
    (h : t.insert name cells = .ok (t', id)) (hnone : Json.member? record primaryKey = none) :
    Above held id := by
  have hid := (Table.insert_eq_ok h).1
  rw [hown.newId_of_none hc hnone, hbounded.nextId_eq_ok] at hid
  refine ⟨Int64.le_iff_toInt_le.mpr ?_, fun old hold => Int64.lt_iff_toInt_lt.mpr ?_⟩
  · show 1 ≤ id.toInt
    have hzero := hbounded.zero
    omega
  · have hold := hreached old hold
    omega

section
variable (hown : m.OwnTable t) (ht : db.table? m.tableName = some t)
include hown ht

/-- A record that is read after its row was added is that of the row. -/
theorem insert_of_fetch {onFault : DatabaseFault → StoreError} {activity : Activity} {id : Int64}
    {db₁ : Database}
    (hchange : Action.change onFault (·.insert (m.insert cells)) db = .ok id db₁)
    (hfetch : m.fetchById activity id db₁ = .ok created db') :
    ∃ t', t.insert m.tableName cells = .ok (t', id) ∧
      created = m.recordOf ⟨id, t.newCells cells⟩ ∧ db' = db.setTable t' := by
  obtain ⟨_, u, t', hu, hinsert, rfl⟩ := Database.insert_eq_ok.mp (Action.change_eq_ok.mp hchange)
  cases hu.symm.trans ht
  cases hfetch.symm.trans (fetchById_of_new hown ht _ hinsert)
  exact ⟨t', hinsert, rfl, rfl⟩

/-- A creation that succeeds adds a row. -/
theorem createAction_eq_ok (h : m.createAction (m.insert cells) db = .ok created db') :
    ∃ t' id, t.insert m.tableName cells = .ok (t', id) ∧
      created = m.recordOf ⟨id, t.newCells cells⟩ ∧ db' = db.setTable t' := by
  obtain ⟨id, db₁, hchange, hfetch⟩ := runBind_eq_ok.mp h
  obtain ⟨t', hinserted⟩ := insert_of_fetch hown ht hchange hfetch
  exact ⟨t', id, hinserted⟩

/-- An upsert that created a record added a row. -/
theorem upsertAction_eq_created {search : Select} {changes : List (String × SqlValue)}
    (h : m.upsertAction search (m.insert cells) changes db = .ok (created, true) db') :
    ∃ t' id, t.insert m.tableName cells = .ok (t', id) ∧
      created = m.recordOf ⟨id, t.newCells cells⟩ ∧ db' = db.setTable t' := by
  obtain ⟨found, db₁, hfound, hrest⟩ := runBind_eq_ok.mp (Action.transaction_eq_ok.mp h)
  obtain rfl : db = db₁ := Model.commits_fetch (fun _ => rfl) _ _ _ hfound
  split at hrest
  · obtain ⟨id, db₁, hchange, hrest⟩ := runBind_eq_ok.mp hrest
    obtain ⟨record, db₂, hfetch, hpure⟩ := runBind_eq_ok.mp hrest
    cases hpure
    obtain ⟨t', hinserted⟩ := insert_of_fetch hown ht hchange hfetch
    exact ⟨t', id, hinserted⟩
  · obtain ⟨id, db₁, _, hrest⟩ := runBind_eq_ok.mp hrest
    split at hrest
    · obtain ⟨_, _, _, hrest⟩ := runBind_eq_ok.mp hrest
      obtain ⟨_, _, _, hrest⟩ := runBind_eq_ok.mp hrest
      obtain ⟨_, _, _, hpure⟩ := runBind_eq_ok.mp hrest
      cases hpure
    · obtain ⟨_, _, _, hpure⟩ := runBind_eq_ok.mp hrest
      cases hpure
  · cases hrest

end

/-- Rows that are added one after another. The induction is on the records, with the table and the
keys that were held so far. -/
theorem assigns_of_inserts {records : List Record} {statements : List Insert} {activity : Activity}
    (hown : m.OwnTable t) (ht : db.table? m.tableName = some t) (hbounded : t.Bounded)
    (hreached : ∀ old, held old → old.toInt ≤ t.sequence.toInt)
    (hs : records.mapM m.statementOf = .ok statements)
    (h : (statements.forM fun s => do
      let _ ← Action.change (Action.refusal activity) (·.insert s) : Action Unit) db = .ok () db') :
    ∃ t' ids, db'.table? m.tableName = some t' ∧ Assigns held records ids ∧
      (t'.rows.map m.recordOf).Perm
        (t.rows.map m.recordOf ++ List.zipWith m.newRecord records ids) := by
  induction records generalizing t db held statements with
  | nil =>
    simp only [List.mapM_nil, pure, Except.pure, Except.ok.injEq] at hs
    subst hs
    cases h
    exact ⟨t, [], ht, .nil held, by rw [List.zipWith_nil_left, List.append_nil]⟩
  | cons record rest ih =>
    simp only [List.mapM_cons, bind_eq_ok, statementOf_eq_ok, pure, Except.pure,
      Except.ok.injEq] at hs
    obtain ⟨_, ⟨cells, hc, rfl⟩, others, hothers, rfl⟩ := hs
    obtain ⟨_, db₁, hfirst, hrest⟩ := runBind_eq_ok.mp h
    obtain ⟨id, db₂, hchange, hpure⟩ := runBind_eq_ok.mp hfirst
    cases hpure
    obtain ⟨_, u, t', hu, hinsert, rfl⟩ := Database.insert_eq_ok.mp (Action.change_eq_ok.mp hchange)
    cases hu.symm.trans ht
    have hsame : sameName t'.name m.tableName :=
      (Table.insert_name hinsert).1 ▸ Database.table?_name ht
    obtain ⟨_, heq⟩ := Table.insert_eq_ok hinsert
    have hreached' : ∀ old, old = id ∨ held old → old.toInt ≤ t'.sequence.toInt := by
      intro old hold
      rw [heq, toInt_max]
      rcases hold with rfl | hold
      · exact Int.le_max_right _ _
      · exact Int.le_trans (hreached old hold) (Int.le_max_left _ _)
    obtain ⟨t'', ids, ht'', hassigns, hperm⟩ := ih (.inserted hown hinsert)
      (Database.table?_setTable_self ht hsame) (hbounded.inserted hinsert) hreached' hothers hrest
    refine ⟨t'', id :: ids, ht'',
      .cons (above_of_insert hown hbounded hreached hc hinsert) hassigns, hperm.trans ?_⟩
    have hrows : (t'.rows.map m.recordOf).Perm
        (m.newRecord record id :: t.rows.map m.recordOf) := by
      rw [heq, ← hown.recordOf_new hc id]
      exact (Table.insertRow_perm _ _).map _
    exact (hrows.append_right _).trans List.perm_middle.symm

/-- Where there are no tables, no records but none are created. -/
theorem eq_nil_of_createAll_empty {records : List Record} {statements : List Insert} {n : Nat}
    (hs : records.mapM m.statementOf = .ok statements)
    (h : createAllAction statements (.empty planner) = .ok n db') : records = [] := by
  cases records with
  | nil => rfl
  | cons record rest =>
    simp only [List.mapM_cons, bind_eq_ok, pure, Except.pure, Except.ok.injEq] at hs
    obtain ⟨first, _, others, _, rfl⟩ := hs
    obtain ⟨_, _, hinserts, _⟩ := runBind_eq_ok.mp (Action.transaction_eq_ok.mp h)
    obtain ⟨_, _, hfirst, _⟩ := runBind_eq_ok.mp hinserts
    obtain ⟨_, _, hchange, _⟩ := runBind_eq_ok.mp hfirst
    obtain ⟨_, _, _, hnone, _⟩ := Database.insert_eq_ok.mp (Action.change_eq_ok.mp hchange)
    cases hnone

end Model

namespace Session

variable {good : Json → Prop} {s s' : Session} {held : Model → Int64 → Prop} {m : Model}
variable {t : Table}

/-- How keys are assigned and kept in a session, given those that rows of a model have had. -/
structure KeepsKeys (s : Session) (m : Model) (held : Int64 → Prop) : Prop where
  /-- The rows that there are have keys that were held. -/
  current : ∀ row ∈ s.rowsOf m, held row.id
  create : ∀ record created s', perform (.create m.name record) s = .ok (.record created) s' →
    ∃ id, created = m.newRecord record id ∧
      (Json.member? record primaryKey = none → Above held id)
  createAll : ∀ records answer s', perform (.createAll m.name records) s = .ok answer s' →
    ∃ ids, Assigns held records ids ∧ ((s'.rowsOf m).map m.recordOf).Perm
      ((s.rowsOf m).map m.recordOf ++ List.zipWith m.newRecord records ids)
  upsert : ∀ lookup defaults created s',
    perform (.upsert m.name lookup defaults) s = .ok (.upserted created true) s' →
    ∃ id, created = m.newRecord (Json.setMembers defaults lookup) id ∧
      (Json.member? lookup primaryKey = none → Above held id)
  /-- Rows stay under their keys, and are changed at most as the operation says. -/
  kept : ∀ op answer s', op.removes = false → perform op s = .ok answer s' →
    ∀ row ∈ s.rowsOf m, ∃ row' ∈ s'.rowsOf m, row'.id = row.id ∧
      (m.recordOf row' = m.recordOf row ∨ op.model = m.name ∧
        ∃ changes ∈ op.changes, m.recordOf row' = m.applied changes (m.recordOf row))
  /-- Only new records have new keys. -/
  added : ∀ op answer s', op.created = [] → perform op s = .ok answer s' →
    ∀ row' ∈ s'.rowsOf m, ∃ row ∈ s.rowsOf m, row.id = row'.id

/-- What an operation that succeeds does to the rows of a model. -/
theorem Serving.effect (h : Serving good s) (hm : m ∈ s.registry.models) {op : Operation}
    {answer : Answer} (hperform : perform op s = .ok answer s') :
    s'.rowsOf m = s.rowsOf m ∨ op.model = m.name ∧
      ∃ t t', s.rowsOf m = t.rows ∧ s'.rowsOf m = t'.rows ∧ op.Effect m t t' := by
  obtain ⟨other, plan, handle, db, db', hplan, hleads, haction, hwrites, rfl⟩ :=
    perform_eq_ok hperform
  obtain ⟨hget, hplanOn⟩ := plan_eq_ok hplan
  have hother := h.served.reachable.registry_proper.get_mem hget
  obtain ⟨_, _, hlocated⟩ := h.served.located
  obtain ⟨hdb, hmaster⟩ | ⟨rfl, hkept⟩ := hlocated.of_leads hleads
  case inr =>
    rw [hwrites.eq_of_empty, hkept]
    exact .inl rfl
  rw [← setDatabase_eq hmaster]
  obtain ⟨t, ht, hfilled⟩ := (h.hosts hdb).filled m hm
  rw [rowsOf_of_database hdb, rowsOf_of_database (setDatabase_database? hdb),
    Database.rowsOf_of_table ht]
  by_cases heq : m = other
  · subst heq
    have hkeeps := Operation.planOn_keeps (Operation.covers_affects m op) hplanOn
    obtain ⟨t', ht', _, heffect⟩ := hkeeps.commits haction t ht hfilled.own
    have hname := h.served.reachable.registry_proper.get_name hget
    exact .inr ⟨hname.symm, t, t', rfl, Database.rowsOf_of_table ht', heffect⟩
  · have hsame := hwrites.table?_of_ne (h.served.distinct.apart hother hm (Ne.symm heq))
    exact .inl (Database.rowsOf_of_table (hsame.trans ht))

/-- Where a lookup has no key, the record that an upsert creates has none. -/
theorem member?_setMembers_primaryKey {lookup defaults : Record} {cells : List (String × SqlValue)}
    (hown : m.OwnTable t) (hdefaults : m.encode false defaults = .ok cells)
    (h : Json.member? lookup primaryKey = none) :
    Json.member? (Json.setMembers defaults lookup) primaryKey = none := by
  rw [← Option.not_isSome_iff_eq_none, Option.isSome_iff_exists]
  rintro ⟨value, hvalue⟩
  rcases Json.mem_setMembers (Json.member?_eq_some hvalue) with hmember | hmember
  · obtain ⟨entry, _, hentry⟩ := exists_of_mapM hdefaults hmember
    exact Model.encodeMember_ne_id hentry (hown.column?_of_mem List.mem_cons_self)
  · rw [Json.member?, Option.map_eq_none_iff, List.find?_eq_none] at h
    exact h _ hmember (decide_eq_true rfl)

section
variable (h : Remembers good s held) (hm : m ∈ s.registry.models)
include h hm

/-- The plan of an operation on a model that succeeds, the table that it works on, and the one that
it leaves. Where there are no tables, an operation leaves none. -/
theorem Remembers.action {op : Operation} (hop : op.model = m.name) {answer : Answer}
    (hperform : perform op s = .ok answer s') : ∃ plan, op.planOn m = .ok plan ∧
      ((∃ db db' t, plan.action db = .ok answer db' ∧ db.table? m.tableName = some t ∧
        m.Filled good t ∧ t.Counts (held m) ∧ s.rowsOf m = t.rows ∧
        ∀ t', db'.table? m.tableName = some t' → s'.rowsOf m = t'.rows) ∨
      plan.action (.empty s.planner) = .ok answer (.empty s.planner) ∧ s' = s) := by
  obtain ⟨other, plan, handle, db, db', hplan, hleads, haction, hwrites, rfl⟩ :=
    perform_eq_ok hperform
  obtain ⟨hget, hplanOn⟩ := plan_eq_ok hplan
  have hsame := h.serving.served.reachable.registry_proper.get_of_mem hm
  rw [hop, hsame] at hget
  cases hget
  obtain ⟨_, _, hlocated⟩ := h.located
  refine ⟨plan, hplanOn, ?_⟩
  rcases hlocated.of_leads hleads with ⟨hdb, hmaster⟩ | ⟨rfl, hkept⟩
  · rw [← setDatabase_eq hmaster]
    obtain ⟨t, ht, hfilled, hcounts⟩ := h.table hdb hm
    refine .inl ⟨db, db', t, haction, ht, hfilled, hcounts, ?_, fun t' ht' => ?_⟩
    · rw [rowsOf_of_database hdb, Database.rowsOf_of_table ht]
    · rw [rowsOf_of_database (setDatabase_database? hdb), Database.rowsOf_of_table ht']
  · obtain rfl := hwrites.eq_of_empty
    exact .inr ⟨haction, hkept⟩

/-- An operation that answers with a record works on a table. -/
theorem Remembers.action_shown {op : Operation} (hop : op.model = m.name) {answer : Answer}
    (hperform : perform op s = .ok answer s') (hshown : answer.shown ≠ []) : ∃ plan db db' t,
      op.planOn m = .ok plan ∧ plan.action db = .ok answer db' ∧ db.table? m.tableName = some t ∧
        m.Filled good t ∧ t.Counts (held m) := by
  obtain ⟨plan, hplanOn, ⟨db, db', t, haction, ht, hfilled, hcounts, _⟩ | ⟨haction, _⟩⟩ :=
    h.action hm hop hperform
  · exact ⟨plan, db, db', t, hplanOn, haction, ht, hfilled, hcounts⟩
  · obtain ⟨record, hrecord⟩ := List.exists_mem_of_ne_nil _ hshown
    obtain ⟨_, hnone, _⟩ := Operation.planOn_yields hplanOn haction record hrecord
    cases hnone

theorem Remembers.assigns_create {record created : Record}
    (hperform : perform (.create m.name record) s = .ok (.record created) s') :
    ∃ id, created = m.newRecord record id ∧
      (Json.member? record primaryKey = none → Above (held m) id) := by
  obtain ⟨plan, db, db', t, hplan, haction, ht, hfilled, hcounts⟩ :=
    h.action_shown hm rfl hperform (List.cons_ne_nil _ _)
  cases Operation.planned_of_planOn hplan with
  | create hc =>
    obtain ⟨_, hcreate, heq⟩ := runMap_eq_ok.mp haction
    cases heq
    obtain ⟨t', id, hinsert, rfl, _⟩ := Model.createAction_eq_ok hfilled.own ht hcreate
    exact ⟨id, hfilled.own.recordOf_new hc id,
      Model.above_of_insert hfilled.own hfilled.bounded hcounts.reached hc hinsert⟩

theorem Remembers.assigns_upsert {lookup defaults created : Record}
    (hperform : perform (.upsert m.name lookup defaults) s = .ok (.upserted created true) s') :
    ∃ id, created = m.newRecord (Json.setMembers defaults lookup) id ∧
      (Json.member? lookup primaryKey = none → Above (held m) id) := by
  obtain ⟨plan, db, db', t, hplan, haction, ht, hfilled, hcounts⟩ :=
    h.action_shown hm rfl hperform (List.cons_ne_nil _ _)
  cases Operation.planned_of_planOn hplan with
  | upsert _ hdefaults _ hc =>
    obtain ⟨⟨_, _⟩, _, hupsert, hpure⟩ := runBind_eq_ok.mp haction
    cases hpure
    obtain ⟨t', id, hinsert, rfl, _⟩ := Model.upsertAction_eq_created hfilled.own ht hupsert
    refine ⟨id, hfilled.own.recordOf_new hc id, fun hnone => ?_⟩
    exact Model.above_of_insert hfilled.own hfilled.bounded hcounts.reached hc hinsert
      (member?_setMembers_primaryKey hfilled.own hdefaults hnone)

theorem Remembers.assigns_createAll {records : List Record} {answer : Answer}
    (hperform : perform (.createAll m.name records) s = .ok answer s') :
    ∃ ids, Assigns (held m) records ids ∧ ((s'.rowsOf m).map m.recordOf).Perm
      ((s.rowsOf m).map m.recordOf ++ List.zipWith m.newRecord records ids) := by
  obtain ⟨plan, hplan, ⟨db, db', t, haction, ht, hfilled, hcounts, hrows, hafter⟩ |
    ⟨haction, rfl⟩⟩ := h.action hm rfl hperform <;> cases Operation.planned_of_planOn hplan
  case inr.createAll hs =>
    obtain ⟨_, hcreates, _⟩ := runMap_eq_ok.mp haction
    obtain rfl := Model.eq_nil_of_createAll_empty hs hcreates
    exact ⟨[], .nil _, by rw [List.zipWith_nil_right, List.append_nil]⟩
  case inl.createAll hs =>
    obtain ⟨_, hcreates, _⟩ := runMap_eq_ok.mp haction
    obtain ⟨_, db₁, hinserts, hpure⟩ := runBind_eq_ok.mp (Action.transaction_eq_ok.mp hcreates)
    cases hpure
    obtain ⟨t', ids, ht', hassigns, hperm⟩ :=
      Model.assigns_of_inserts hfilled.own ht hfilled.bounded hcounts.reached hs hinserts
    rw [hrows, hafter t' ht']
    exact ⟨ids, hassigns, hperm⟩

/-- A session never gives a key that a row of the model has had, whatever happened since its database
was created, and never changes the key of a row. -/
theorem keys_never_reused : s.KeepsKeys m (held m) where
  current row hrow := by
    obtain ⟨_, _, hl⟩ := h.located
    exact hl.rows hm row hrow
  create record created s' hperform := h.assigns_create hm hperform
  createAll records answer s' hperform := h.assigns_createAll hm hperform
  upsert lookup defaults created s' hperform := h.assigns_upsert hm hperform
  kept op answer s' hremoves hperform row hrow := by
    rcases h.serving.effect hm hperform with hsame | ⟨hmodel, t, t', ht, ht', heffect⟩
    · exact ⟨row, hsame ▸ hrow, rfl, .inl rfl⟩
    · rw [ht] at hrow
      obtain ⟨row', hrow', hid, hrecord⟩ := heffect.kept hremoves row hrow
      exact ⟨row', ht' ▸ hrow', hid, hrecord.imp_right fun hchanged => ⟨hmodel, hchanged⟩⟩
  added op answer s' hcreated hperform row' hrow' := by
    rcases h.serving.effect hm hperform with hsame | ⟨_, t, t', ht, ht', heffect⟩
    · exact ⟨row', hsame ▸ hrow', rfl⟩
    · rw [ht'] at hrow'
      obtain ⟨row, hrow, hid⟩ := heffect.added hcreated row' hrow'
      exact ⟨row, ht ▸ hrow, hid⟩

end

/-- Ann was created under the key 5 and removed. Bob, who is created then, gets a larger key. -/
theorem key_after_removal :
    let ann := personSession.after (.operation (.create "Person"
      [(primaryKey, .number (.integer 5 (by decide))), ("name", .string "Ann")]))
    let gone := ann.after (.operation (.delete "Person" 5))
    gone.rowsOf uniquePerson = [] ∧ ∃ held, Remembers (fun _ => True) gone held ∧
      held uniquePerson 5 ∧ ∃ id s', 5 < id ∧ perform (.create "Person" [("name", .string "Bob")]) gone =
        .ok (.record (uniquePerson.newRecord [("name", .string "Bob")] id)) s' := by
  intro ann gone
  obtain ⟨_, hperson⟩ := (serving_personSession fun _ => True).remembers
  obtain ⟨row, hrows, hid⟩ : ∃ row, ann.rowsOf uniquePerson = [row] ∧ row.id = 5 := ⟨_, rfl, rfl⟩
  have hrow : row ∈ ann.rowsOf uniquePerson := hrows ▸ List.mem_cons_self
  obtain ⟨held, hgone, hfive⟩ : ∃ held, Remembers (fun _ => True) gone held ∧ held uniquePerson 5 :=
    ⟨_, .after (.after hperson (Operation.brings_any _ _)) (Operation.brings_any _ _),
      .inr ⟨.inl ⟨row, hrow, hid⟩, fun hrenews => nomatch hrenews.1⟩⟩
  obtain ⟨created, s', hperform⟩ : ∃ created s',
      perform (.create uniquePerson.name [("name", .string "Bob")]) gone = .ok (.record created) s' :=
    ⟨_, _, rfl⟩
  obtain ⟨id, rfl, habove⟩ :=
    (keys_never_reused hgone List.mem_cons_self).create _ _ _ hperform
  exact ⟨rfl, held, hgone, hfive, id, s', (habove rfl).2 5 hfive, hperform⟩

end Session

end RecordStore
