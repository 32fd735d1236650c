import RecordStore.Proofs.Operation.Plans
import RecordStore.Proofs.Query.Matching
import RecordStore.Proofs.Model.Members

/-!
# Operations on reordered records

Two operations whose records have the same members in different orders succeed together, with the
same answer, and change the database in the same way, if the names of the columns of the model differ
without regard to case. Where they fail, they may meet another fault first.
-/

namespace RecordStore

namespace Action

variable {α : Type} {db : Database}

/-- Runs that go on from readings that succeed together. -/
theorem outcomeOf_read_bind {β : Type} {R : α → α → Prop} {activity : Activity}
    {statement statement' : Database → Except DatabaseFault α} {f g : α → Action β}
    (h : Together R (statement db) (statement' db))
    (hfg : ∀ a b, R a b → outcomeOf (f a db) = outcomeOf (g b db)) :
    outcomeOf ((read activity statement >>= f) db) =
      outcomeOf ((read activity statement' >>= g) db) := by
  show outcomeOf (EStateM.bind (read activity statement) f db) =
    outcomeOf (EStateM.bind (read activity statement') g db)
  simp only [EStateM.bind, read]
  cases hs : statement db <;> cases hs' : statement' db <;> rw [hs, hs'] at h <;> cases h
  · rfl
  next hab => exact hfg _ _ hab

theorem outcomeOf_change {onFault : DatabaseFault → StoreError}
    {statement statement' : Database → Except DatabaseFault (Database × α)}
    (h : Together (· = ·) (statement db) (statement' db)) :
    outcomeOf (change onFault statement db) = outcomeOf (change onFault statement' db) := by
  unfold change
  cases hs : statement db <;> cases hs' : statement' db <;> rw [hs, hs'] at h <;> cases h
  · rfl
  next heq =>
    cases heq
    rfl

theorem outcomeOf_transaction {action action' : Action α}
    (h : outcomeOf (action db) = outcomeOf (action' db)) :
    outcomeOf (transaction action db) = outcomeOf (transaction action' db) := by
  unfold transaction
  cases hs : action db <;> cases hs' : action' db <;> rw [hs, hs'] at h <;> cases h <;> rfl

end Action

namespace Clause

/-- Conditions that select the same rows of every table. -/
def Alike (condition condition' : Option Clause) : Prop :=
  ∀ t row, selects condition t row = selects condition' t row

end Clause

namespace Model

variable {m : Model} {cells cells' : List (String × SqlValue)}

/-- A search for the members of a record is one for the same rows in every order of them. -/
theorem compileParts_together {parts parts' : List Filter} (hp : parts'.Perm parts) :
    Together (fun clauses clauses' => clauses'.Perm clauses) (m.compileParts parts)
      (m.compileParts parts') := by
  rw [compileParts_eq_mapM, compileParts_eq_mapM]
  exact together_mapM hp

theorem restriction_matching_together {lookup lookup' : Record} (hp : lookup'.Perm lookup) :
    Together Clause.Alike (m.restriction (some (.matching lookup)))
      (m.restriction (some (.matching lookup'))) := by
  have hparts := hp.map fun member : String × Json => Filter.condition ⟨member.1, .equal, member.2⟩
  have hunrestricted (record : Record) : (Filter.matching record).isUnrestricted = record.isEmpty := by
    cases record <;> rfl
  simp only [restriction, hunrestricted, hp.isEmpty_eq]
  split
  · exact .ok fun _ _ => rfl
  · apply (compileParts_together hparts).bind
    intro clauses clauses' hclauses
    refine .ok fun t row => ?_
    rw [conjunction_selects, conjunction_selects, Bool.eq_iff_iff, List.all_eq_true,
      List.all_eq_true]
    simp only [selections, (hclauses.map _).mem_iff]

/-- What searches for one row find, and whether they find several, is the same. Of several rows a
planner may come upon others first. -/
def SameFound (found found' : List (List SqlValue)) : Prop :=
  found = found' ∨ 2 ≤ found.length ∧ 2 ≤ found'.length

/-- Statements that search for the same row and fit together. -/
def SameSearch (s s' : Select) : Prop :=
  ∀ db : Database, Together SameFound (db.select s) (db.select s')

/-- Of the same rows in different orders, the first two are the same or there are several. -/
theorem sameFound_of_perm {rows rows' : List Row} (h : rows.Perm rows') (f : Row → List SqlValue) :
    SameFound ((rows.take 2).map f) ((rows'.take 2).map f) := by
  by_cases hseveral : 2 ≤ rows.length
  · refine .inr ⟨?_, ?_⟩
    · rw [List.length_map, List.length_take, Nat.min_eq_left hseveral]
    · rw [List.length_map, List.length_take, ← h.length_eq, Nat.min_eq_left hseveral]
  · refine .inl ?_
    match rows, hseveral with
    | [], _ => rw [h.nil_eq]
    | [row], _ => rw [List.singleton_perm.mp h]
    | _ :: _ :: _, hseveral => exact absurd (Nat.le_add_left 2 _) hseveral

theorem select_matching_together {lookup lookup' : Record} (hp : lookup'.Perm lookup) :
    Together SameSearch (m.select (some (.matching lookup)) [] (some searchWindow))
      (m.select (some (.matching lookup')) [] (some searchWindow)) := by
  have hcondition : Together (fun condition condition' => Clause.Alike condition condition' ∧
      m.restriction (some (.matching lookup)) = .ok condition ∧
        m.restriction (some (.matching lookup')) = .ok condition')
      (m.restriction (some (.matching lookup))) (m.restriction (some (.matching lookup'))) :=
    (restriction_matching_together hp).imp fun _ _ hleft hright hsame => ⟨hsame, hleft, hright⟩
  apply hcondition.bind
  rintro condition condition' ⟨hsame, hleft, hright⟩
  refine .ok fun db => ?_
  have hmatching (t : Table) : t.matching condition = t.matching condition' :=
    List.filter_congr fun row _ => hsame t row
  have hfit : Fit (Select.demands ⟨m.tableName, m.columns.map Column.name, condition, [],
        some searchWindow.toRows⟩) ↔
      Fit (Select.demands ⟨m.tableName, m.columns.map Column.name, condition', [],
        some searchWindow.toRows⟩) := by
    rw [Select.demands, Select.demands, fit_matching hleft (by decide),
      fit_matching hright (by decide), hp.length_eq]
  apply (readText_together hfit).bind
  rintro _ _ rfl
  apply together_bind
  intro t
  apply together_bind
  intro _
  apply together_bind
  intro _
  have hvisited : (db.planner.visit t condition []).Perm (db.planner.visit t condition' []) := by
    refine (db.planner.perm t condition []).trans ?_
    exact hmatching t ▸ (db.planner.perm t condition' []).symm
  exact .ok (sameFound_of_perm hvisited _)

/-- Updates with the same effect on every database. -/
def SameUpdate (s s' : Update) : Prop :=
  ∀ db : Database, Together (· = ·) (db.update s) (db.update s')

theorem update_together (m : Model) (h : CellsApart cells) (hp : cells'.Perm cells)
    (filter : Option Filter) :
    Together SameUpdate (m.update cells filter) (m.update cells' filter) := by
  by_cases hnil : cells = []
  · subst hnil
    rw [hp.eq_nil]
    exact together_self (fun s db => together_self (fun _ => rfl) _) _
  · have hnil' : cells' ≠ [] := fun heq => hnil (heq ▸ hp).symm.eq_nil
    rw [update, update, if_neg hnil, if_neg hnil']
    apply together_bind
    intro condition
    exact .ok fun db => db.update_together h hp m.tableName condition

section
variable {db : Database}

theorem outcomeOf_createAction (m : Model) (h : CellsApart cells) (hp : cells'.Perm cells) :
    outcomeOf (m.createAction (m.insert cells) db) =
      outcomeOf (m.createAction (m.insert cells') db) := by
  apply outcomeOf_bind
  · exact Action.outcomeOf_change (db.insert_together h hp m.tableName)
  · exact fun id db₁ => rfl

theorem outcomeOf_updateAction (m : Model) {s s' : Option Update} (hs : Option.Rel SameUpdate s s')
    (id : Int64) : outcomeOf (m.updateAction s id db) = outcomeOf (m.updateAction s' id db) := by
  cases hs with
  | none => rfl
  | some hs =>
    apply Action.outcomeOf_transaction
    apply outcomeOf_bind
    · exact Action.outcomeOf_change (hs db)
    · exact fun changed db₁ => rfl

theorem outcomeOf_upsertAction (m : Model) {search search' : Select}
    {changes changes' : List (String × SqlValue)} (hsearch : SameSearch search search')
    (h : CellsApart cells) (hp : cells'.Perm cells)
    (hchanges : CellsApart changes) (hp' : changes'.Perm changes) :
    outcomeOf (m.upsertAction search (m.insert cells) changes db) =
      outcomeOf (m.upsertAction search' (m.insert cells') changes' db) := by
  have hnil : changes = [] ↔ changes' = [] :=
    ⟨fun heq => (heq ▸ hp').eq_nil, fun heq => (heq ▸ hp').symm.eq_nil⟩
  apply Action.outcomeOf_transaction
  simp only [fetch, bind_assoc, pure_bind]
  refine Action.outcomeOf_read_bind (hsearch db) fun found found' hfound => ?_
  rcases hfound with rfl | ⟨hseveral, hseveral'⟩
  · generalize found.map m.decode = records
    match records with
    | [] =>
      apply outcomeOf_bind
      · exact Action.outcomeOf_change (db.insert_together h hp m.tableName)
      · exact fun id db₁ => rfl
    | [record] =>
      apply outcomeOf_bind
      · rfl
      intro id db₂
      by_cases hempty : changes = []
      · simp only [hempty, hnil.mp hempty]
      · have hempty' : changes' ≠ [] := fun heq => hempty (hnil.mpr heq)
        simp only [ne_eq, hempty, hempty', not_false_eq_true, if_true]
        apply outcomeOf_ofExcept_bind (m.update_together hchanges hp' (some (.byId id)))
        intro s s' hs
        apply outcomeOf_bind
        · exact Action.outcomeOf_change (hs db₂)
        · exact fun n db₃ => rfl
    | _ :: _ :: _ => rfl
  · match found, found', hseveral, hseveral' with
    | _ :: _ :: _, _ :: _ :: _, _, _ => rfl

end

end Model

/-- Plans of the same access whose actions have the same outcome on every database. -/
structure Plan.Alike (p q : Plan) : Prop where
  access : q.access = p.access
  action : ∀ db, outcomeOf (p.action db) = outcomeOf (q.action db)

theorem Plan.Alike.write {action action' : Action Answer}
    (h : ∀ db, outcomeOf (action db) = outcomeOf (action' db)) :
    Plan.Alike ⟨.write, action⟩ ⟨.write, action'⟩ := ⟨rfl, h⟩

/-- Operations that differ in the order of the members of their records. The keys of a record
differ. -/
inductive Reordered : Operation → Operation → Prop
  | create {model : String} {record record' : Record} (hd : Json.DistinctKeys record)
      (hp : record'.Perm record) : Reordered (.create model record) (.create model record')
  | update {model : String} {id : Int64} {changes changes' : Record}
      (hd : Json.DistinctKeys changes) (hp : changes'.Perm changes) :
      Reordered (.update model id changes) (.update model id changes')
  | updateAll {model : String} {filter : Json} {changes changes' : Record}
      (hd : Json.DistinctKeys changes) (hp : changes'.Perm changes) :
      Reordered (.updateAll model filter changes) (.updateAll model filter changes')
  | upsert {model : String} {lookup lookup' defaults defaults' : Record}
      (hd : Json.DistinctKeys lookup) (hp : lookup'.Perm lookup)
      (hd' : Json.DistinctKeys defaults) (hp' : defaults'.Perm defaults) :
      Reordered (.upsert model lookup defaults) (.upsert model lookup' defaults')

namespace Operation

variable {m : Model}

/-- The cells of a record whose keys differ, in another order. -/
theorem cellsOf_together (hm : m.columns.Pairwise fun a b => sameName a.name b.name = false)
    (allowId : Bool) {record record' : Record} (hd : Json.DistinctKeys record)
    (hp : record'.Perm record) :
    Together (fun cells cells' => CellsApart cells ∧ cells'.Perm cells) (cellsOf m allowId record)
      (cellsOf m allowId record') := by
  have hcells := (m.encode_together allowId hp).mapError StoreError.validation
  apply hcells.imp
  intro cells cells' hok _ hperm
  exact ⟨Model.cellsApart_of_encode hm hd (mapError_eq_ok.mp hok), hperm⟩

/-- The plans of reordered operations on a model whose columns have different names. -/
theorem planOn_together (hm : m.columns.Pairwise fun a b => sameName a.name b.name = false)
    {op op' : Operation} (h : Reordered op op') :
    Together Plan.Alike (op.planOn m) (op'.planOn m) := by
  cases h with
  | create hd hp =>
    apply (cellsOf_together hm true hd hp).bind
    rintro cells cells' ⟨hapart, hcells⟩
    refine .ok (.write fun db => ?_)
    exact outcomeOf_map _ (m.outcomeOf_createAction hapart hcells)
  | @update _ id _ _ hd hp =>
    apply (cellsOf_together hm false hd hp).bind
    rintro cells cells' ⟨hapart, hcells⟩
    by_cases hnil : cells = []
    · subst hnil
      rw [hcells.eq_nil]
      exact together_self (fun _ => ⟨rfl, fun _ => rfl⟩) _
    · have hnil' : cells' ≠ [] := fun heq => hnil (heq ▸ hcells).symm.eq_nil
      have hstatement := m.update_together hapart hcells (some (.byId id))
      simp only [hnil, hnil', if_false]
      apply (hstatement.map fun _ _ hs => Option.Rel.some hs).bind
      intro s s' hs
      refine .ok (.write fun db => ?_)
      exact outcomeOf_map _ (m.outcomeOf_updateAction hs id)
  | updateAll hd hp =>
    apply together_bind
    intro filter
    apply (cellsOf_together hm false hd hp).bind
    rintro cells cells' ⟨hapart, hcells⟩
    apply (m.update_together hapart hcells (some filter)).bind
    intro s s' hs
    refine .ok (.write fun db => ?_)
    exact outcomeOf_map _ (Action.outcomeOf_change (hs db))
  | upsert hd hp hd' hp' =>
    apply (cellsOf_together hm true hd hp).bind
    rintro _ _ -
    apply (cellsOf_together hm false hd' hp').bind
    rintro changes changes' ⟨hchanges, hpchanges⟩
    apply ((Model.select_matching_together hp).mapError _).bind
    intro search search' hsearch
    have hunion := Json.setMembers_perm hd' hd hp' hp
    apply (cellsOf_together hm true (Json.distinctKeys_setMembers hd' _) hunion).bind
    rintro cells cells' ⟨hapart, hcells⟩
    refine .ok (.write fun db => ?_)
    apply outcomeOf_bind
    · exact m.outcomeOf_upsertAction hsearch hapart hcells hchanges hpchanges
    · exact fun _ _ => rfl

end Operation

end RecordStore
