import RecordStore.Proofs.Operation.Actions

/-!
# What operations do to a database

The operations on a model run three statements that change a database: they add a record that was
accepted, set accepted cells in the rows of a filter, and remove the rows of a filter. Every
operation that succeeds is a sequence of such statements, and one that only reads is the empty
sequence. Whatever the three statements keep, all operations keep.
-/

namespace RecordStore

namespace Model

/-- A statement of a model takes one database to another. -/
inductive Writes (m : Model) : Database → Database → Prop
  | inserted {record : Record} {cells : List (String × SqlValue)} {db db' : Database} {id : Int64}
      (hc : m.encode true record = .ok cells) (h : db.insert (m.insert cells) = .ok (db', id)) :
      Writes m db db'
  | updated {record : Record} {cells : List (String × SqlValue)} {filter : Option Filter}
      {s : Update} {db db' : Database} {n : Nat} (hc : m.encode false record = .ok cells)
      (hs : m.update cells filter = .ok s) (h : db.update s = .ok (db', n)) : Writes m db db'
  | deleted {filter : Option Filter} {s : Delete} {db db' : Database} {n : Nat}
      (hs : m.delete filter = .ok s) (h : db.delete s = .ok (db', n)) : Writes m db db'

/-- Statements of a model, one after another, take one database to another. -/
def WritesAll (m : Model) : Database → Database → Prop := Relation.ReflTransGen m.Writes

variable {m : Model} {db db' db'' : Database}

theorem WritesAll.refl (db : Database) : m.WritesAll db db := Relation.ReflTransGen.refl

theorem WritesAll.single (h : m.Writes db db') : m.WritesAll db db' := Relation.ReflTransGen.single h

theorem WritesAll.trans (h : m.WritesAll db db') (h' : m.WritesAll db' db'') :
    m.WritesAll db db'' := Relation.ReflTransGen.trans h h'

theorem WritesAll.insert {record : Record} {cells : List (String × SqlValue)}
    (hc : m.encode true record = .ok cells) (db db' : Database) (id : Int64)
    (h : db.insert (m.insert cells) = .ok (db', id)) : m.WritesAll db db' := .single (.inserted hc h)

theorem WritesAll.update {record : Record} {cells : List (String × SqlValue)}
    {filter : Option Filter} {s : Update} (hc : m.encode false record = .ok cells)
    (hs : m.update cells filter = .ok s) (db db' : Database) (n : Nat)
    (h : db.update s = .ok (db', n)) : m.WritesAll db db' := .single (.updated hc hs h)

theorem WritesAll.delete {filter : Option Filter} {s : Delete} (hs : m.delete filter = .ok s)
    (db db' : Database) (n : Nat) (h : db.delete s = .ok (db', n)) : m.WritesAll db db' :=
  .single (.deleted hs h)

/-- What every statement keeps, a sequence of statements keeps. -/
theorem WritesAll.induction {P : Database → Prop} (h : m.WritesAll db db') (hdb : P db)
    (step : ∀ u u', P u → m.Writes u u' → P u') : P db' := by
  induction h with
  | refl => exact hdb
  | tail _ hw ih => exact step _ _ ih hw

theorem update_table {cells : List (String × SqlValue)} {filter : Option Filter} {s : Update}
    (h : m.update cells filter = .ok s) : s.table = m.tableName ∧ s.cells = cells := by
  unfold update at h
  split at h
  · cases h
  · simp only [bind_eq_ok, Except.ok.injEq] at h
    obtain ⟨_, _, rfl⟩ := h
    exact ⟨rfl, rfl⟩

theorem delete_table {filter : Option Filter} {s : Delete} (h : m.delete filter = .ok s) :
    s.table = m.tableName := by
  simp only [delete, bind_eq_ok, Except.ok.injEq] at h
  obtain ⟨_, _, rfl⟩ := h
  rfl

/-- A statement puts another table in the place of the table of the model. -/
theorem Writes.setTable (h : m.Writes db db') : ∃ t t', db.table? m.tableName = some t ∧
    t'.name = t.name ∧ t'.columns = t.columns ∧ db' = db.setTable t' := by
  cases h with
  | inserted _ h =>
    obtain ⟨_, t, t', ht, hi, rfl⟩ := Database.insert_eq_ok.mp h
    exact ⟨t, t', ht, (Table.insert_name hi).1, (Table.insert_name hi).2, rfl⟩
  | updated _ hs h =>
    obtain ⟨_, t, t', ht, hu, rfl⟩ := Database.update_eq_ok.mp h
    rw [(update_table hs).1] at ht
    exact ⟨t, t', ht, (Table.update_name hu).1, (Table.update_name hu).2, rfl⟩
  | @deleted _ s _ _ _ hs h =>
    obtain ⟨_, t, ht, _, rfl⟩ := Database.delete_eq_ok.mp h
    rw [delete_table hs] at ht
    exact ⟨t, (t.delete s.condition).1, ht, rfl, rfl, rfl⟩

/-- Where there are no tables, no statement of a model changes anything. -/
theorem WritesAll.eq_of_empty {planner : Planner} (h : m.WritesAll (.empty planner) db) :
    db = .empty planner := by
  apply h.induction (P := (· = .empty planner)) rfl
  rintro _ _ rfl hw
  obtain ⟨_, _, ht, _⟩ := hw.setTable
  cases ht

theorem WritesAll.distinctNames (h : m.WritesAll db db') (hd : db.DistinctNames) :
    db'.DistinctNames := by
  apply h.induction hd
  intro u u' hu hw
  obtain ⟨_, t', _, _, _, rfl⟩ := hw.setTable
  exact Database.setTable_distinctNames hu t'

/-- The tables of other names stay as they are. -/
theorem WritesAll.table?_of_ne (h : m.WritesAll db db') {name : String}
    (hn : sameName m.tableName name = false) : db'.table? name = db.table? name := by
  apply h.induction (P := fun u => u.table? name = db.table? name) rfl
  intro u u' hu hw
  obtain ⟨t, t', ht, hname, _, rfl⟩ := hw.setTable
  have htn : sameName t'.name name = false := by
    rw [hname, sameName_congr (Database.table?_name ht), hn]
  rw [Database.table?_setTable_of_ne htn, hu]

/-- Statements of a model remove no table. -/
theorem WritesAll.table?_isSome (h : m.WritesAll db db') {name : String}
    (hname : (db.table? name).isSome) : (db'.table? name).isSome := by
  apply h.induction (P := fun u => (u.table? name).isSome) hname
  intro u u' hu hw
  obtain ⟨t, t', ht, htname, _, rfl⟩ := hw.setTable
  obtain ⟨found, hfound⟩ := Option.isSome_iff_exists.mp hu
  by_cases hsame : sameName t'.name name = true
  · rw [Database.table?_setTable_self hfound hsame]
    rfl
  · rw [Database.table?_setTable_of_ne (by simpa using hsame)]
    exact hu

/-! ## The actions

A relation between databases that is reflexive and transitive holds between the databases before and
after an action, if it holds for its statements. -/

section
variable {R : Database → Database → Prop} (hr : ∀ db, R db db)
include hr

theorem commits_fetch (m : Model) (activity : Activity) (s : Select) :
    (m.fetch activity s).Commits R := by
  intro db v db' hrun
  obtain ⟨rows, db₁, hread, hpure⟩ := runBind_eq_ok.mp hrun
  obtain ⟨_, rfl⟩ := Action.read_eq_ok.mp hread
  cases hpure
  exact hr _

theorem commits_fetchById (m : Model) (activity : Activity) (id : Int64) :
    (m.fetchById activity id).Commits R := by
  rw [fetchById_eq]
  intro db v db' hrun
  obtain ⟨records, db₁, hfetch, hrest⟩ := runBind_eq_ok.mp hrun
  have hdb := commits_fetch (R := (· = ·)) (fun _ => rfl) _ _ _ hfetch
  subst hdb
  split at hrest
  · cases hrest
    exact hr _
  · cases hrest

variable (ht : ∀ a b c, R a b → R b c → R a c)
include ht

theorem commits_createAction {m : Model} {s : Insert}
    (hs : ∀ db db' id, db.insert s = .ok (db', id) → R db db') :
    (m.createAction s).Commits R :=
  .bind ht (Action.commits_change hs) fun id => commits_fetchById hr m _ id

theorem commits_updateAction {m : Model} {s : Option Update} {id : Int64}
    (hs : ∀ u ∈ s, ∀ db db' n, db.update u = .ok (db', n) → R db db') :
    (m.updateAction s id).Commits R := by
  apply Action.Commits.transaction
  have hfetch : (m.fetchById .updatingRecord id).Commits R := commits_fetchById hr m _ id
  cases s with
  | none => exact hfetch
  | some s =>
    apply Action.Commits.bind ht (Action.commits_change (hs s rfl))
    intro changed
    split
    · exact .bind ht (Action.commits_throw _) fun _ => hfetch
    · exact hfetch

theorem commits_upsertAction {m : Model} {search : Select} {s : Insert}
    {changes : List (String × SqlValue)}
    (hs : ∀ db db' id, db.insert s = .ok (db', id) → R db db')
    (hu : ∀ u filter, m.update changes filter = .ok u →
      ∀ db db' n, db.update u = .ok (db', n) → R db db') :
    (m.upsertAction search s changes).Commits R := by
  have hfetch (id : Int64) (created : Bool) : (do
      let record ← m.fetchById .updatingRecord id
      pure (record, created) : Action (Record × Bool)).Commits R :=
    .bind ht (commits_fetchById hr m _ id) fun _ => Action.commits_pure hr _
  refine .transaction (.bind ht (commits_fetch hr m _ search) fun found => ?_)
  split
  · exact .bind ht (Action.commits_change hs) fun id => hfetch id true
  · apply Action.Commits.bind ht (Action.commits_ofExcept hr _)
    intro id
    split
    · intro db v db' hrun
      obtain ⟨u, db₁, hlift, hrest⟩ := runBind_eq_ok.mp hrun
      obtain ⟨hplan, rfl⟩ := runOfExcept_eq_ok.mp hlift
      obtain ⟨n, db₂, hchange, hrest⟩ := runBind_eq_ok.mp hrest
      exact ht _ _ _ (hu u _ hplan _ _ _ (Action.change_eq_ok.mp hchange)) (hfetch id false hrest)
    · exact hfetch id false
  · exact Action.commits_throw _

theorem commits_deleteAction {s : Delete}
    (hs : ∀ db db' n, db.delete s = .ok (db', n) → R db db') : (deleteAction s).Commits R := by
  apply Action.Commits.bind ht (Action.commits_change hs)
  intro removed
  split
  · exact Action.commits_throw _
  · exact Action.commits_pure hr _

theorem commits_createAllAction {statements : List Insert}
    (hs : ∀ s ∈ statements, ∀ db db' id, db.insert s = .ok (db', id) → R db db') :
    (createAllAction statements).Commits R := by
  refine .transaction (.bind ht ?_ fun _ => Action.commits_pure hr _)
  induction statements with
  | nil => exact Action.commits_pure hr _
  | cons first rest ih =>
    have hfirst : (Action.change (Action.refusal .creatingRecords) (·.insert first)).Commits R :=
      Action.commits_change (hs first List.mem_cons_self)
    exact .bind ht (.bind ht hfirst fun _ => Action.commits_pure hr _) fun _ =>
      ih fun s hmem => hs s (List.mem_cons_of_mem _ hmem)

end

end Model

end RecordStore
