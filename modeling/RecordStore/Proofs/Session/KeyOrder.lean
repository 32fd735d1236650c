import RecordStore.Proofs.Operation.Reordered
import RecordStore.Proofs.Session.Schema

/-!
# The order of the keys of a record

A model accepts a record in every order of its keys or in none. What an operation does with it depends
on that order only if two columns of the model have the same name but for case: the database takes
them for one column, which is then given two values. Such a model cannot make a table, but it finds
one in a file that was made for another model.
-/

namespace RecordStore

namespace FieldKind

/-- A value of the kind that becomes zero or one in a column of integers. -/
def digit (one : Bool) : FieldKind → Json
  | .int | .float | .json => .ofInt64 (if one then 1 else 0)
  | .text => .string (if one then "1" else "0")
  | .bool => .bool one

theorem encode?_digit (kind : FieldKind) (one : Bool) : ∃ cell,
    kind.encode? (kind.digit one) = some cell ∧
      cell.stored .integer = .integer (if one then 1 else 0) := by
  cases kind <;> cases one <;> exact ⟨_, rfl, by decide +kernel⟩

theorem digit_isNull (kind : FieldKind) (one : Bool) : (kind.digit one).isNull = false := by
  cases kind <;> rfl

end FieldKind

namespace Model

variable {m : Model} {column : Column}

/-- Every column of a valid model takes a zero and a one. -/
theorem encodeMember_digit (hm : m.validate = .ok ()) (h : column ∈ m.columns) (one : Bool) :
    ∃ cell, m.encodeMember true column.name (column.kind.digit one) = .ok (column.name, cell) ∧
      cell.stored .integer = .integer (if one then 1 else 0) := by
  have hcolumn := column?_of_mem hm h
  cases column with
  | id =>
    refine ⟨.integer (if one then 1 else 0), ?_, by cases one <;> decide +kernel⟩
    simp only [encodeMember, hcolumn]
    cases one <;> rfl
  | field f =>
    obtain ⟨cell, hcell, hstored⟩ := f.kind.encode?_digit one
    refine ⟨cell, ?_, hstored⟩
    simp only [encodeMember, hcolumn, Field.encode, Column.kind, FieldKind.digit_isNull, hcell]
    rfl

theorem encode_pair {allowId : Bool} {first second : String × Json} {cell cell' : String × SqlValue}
    (h : m.encodeMember allowId first.1 first.2 = .ok cell)
    (h' : m.encodeMember allowId second.1 second.2 = .ok cell') :
    m.encode allowId [first, second] = .ok [cell, cell'] := by
  simp only [encode, List.mapM_cons, h, h']
  rfl

end Model

namespace Table

/-- A table without rows that has one column besides its key, or none if `column` means the key. -/
def single (name column : String) : Table :=
  ⟨name, if isIdName column then [] else [⟨column, .integer, false, false, none⟩], [], 0⟩

/-- A row of that table. -/
def singleRow (column : String) (n : Int64) : Row :=
  if isIdName column then ⟨n, []⟩ else ⟨1, [.integer n]⟩

variable {column a b : String} {v w : SqlValue} {n k : Int64} (name : String)

theorem hasColumn_single (h : sameName a column = true) : (single name column).hasColumn a = true := by
  unfold hasColumn single
  split
  next hkey => rw [isIdName, sameName_congr h, ← isIdName, hkey, Bool.true_or]
  next => simp [sameName_comm column, h]

theorem checkNotNull_single (row : Row) : (single name column).checkNotNull row = .ok () := by
  unfold checkNotNull single
  split
  next spec cell hfound =>
    have hnotNull := List.find?_some hfound
    have hspec := (List.of_mem_zip (List.mem_of_find?_eq_some hfound)).1
    split at hspec
    · cases hspec
    · obtain rfl := List.mem_singleton.mp hspec
      cases hnotNull
  · rfl

/-- Of two values for one column, a new row gets the first, and of two keys, the last. -/
theorem insert_single (ha : sameName a column = true) (hb : sameName b column = true)
    (hv : v.stored .integer = .integer n) (hw : w.stored .integer = .integer k) :
    ∃ t id, (single name column).insert name [(a, v), (b, w)] = .ok (t, id) ∧
      t.rows = [singleRow column (if isIdName column then k else n)] := by
  have hknown : ∀ given ∈ [(a, v), (b, w)], (single name column).hasColumn given.1 = true := by
    intro given hgiven
    rcases List.mem_pair.mp hgiven with rfl | rfl
    · exact hasColumn_single name ha
    · exact hasColumn_single name hb
  have hkey (c : String) (hc : sameName c column = true) : sameName c "_id" = isIdName column :=
    sameName_congr hc "_id"
  unfold singleRow
  cases hcolumn : isIdName column with
  | true =>
    have hid : (single name column).newId [(a, v), (b, w)] = .ok k := by
      have hassigned : assigned? [(a, v), (b, w)].reverse "_id" = some w := by
        simp [assigned?, hkey b hb, hcolumn]
      rw [newId, hassigned]
      cases w with
      | null => cases hw
      | _ => simp only [idOfValue, hw]
    have hcells : (single name column).newCells [(a, v), (b, w)] = [] := by
      simp [newCells, single, hcolumn]
    exact ⟨_, k, insert_first rfl hknown hid (checkNotNull_single name _) name, by rw [hcells]; rfl⟩
  | false =>
    have hid : (single name column).newId [(a, v), (b, w)] = .ok 1 := by
      have hassigned : assigned? [(a, v), (b, w)].reverse "_id" = none := by
        simp [assigned?, hkey a ha, hkey b hb, hcolumn]
      exact newId_first rfl rfl hassigned
    have hcells : (single name column).newCells [(a, v), (b, w)] = [.integer n] := by
      simp [newCells, single, hcolumn, assigned?, ha, hv]
    exact ⟨_, 1, insert_first rfl hknown hid (checkNotNull_single name _) name, by rw [hcells]; rfl⟩

theorem singleRow_injective {column : String} {n k : Int64}
    (h : singleRow column n = singleRow column k) : n = k := by
  unfold singleRow at h
  split at h
  · exact congrArg Row.id h
  · exact SqlValue.integer.inj (List.cons.inj (congrArg Row.cells h)).1

end Table

namespace Session

variable {s : Session} {m : Model}

theorem outcomeOf_run {α : Type} {action action' : Action α}
    (h : ∀ db, outcomeOf (action db) = outcomeOf (action' db)) (connection : String) (s : Session) :
    outcomeOf (run connection action s) = outcomeOf (run connection action' s) := by
  cases hdb : s.databaseOf? connection with
  | none => rw [run_of_missing hdb, run_of_missing hdb]
  | some db =>
    obtain ⟨handle, hleads⟩ := databaseOf?_eq_some.mp hdb
    have hsame := h db
    rw [run_of_leads hleads, run_of_leads hleads]
    cases hrun : action db <;> cases hrun' : action' db <;> rw [hrun, hrun'] at hsame <;>
      cases hsame <;> rfl

/-- In no state of a session do operations on the model depend on the order of the members of their
records. -/
def KeyOrderIrrelevant (m : Model) : Prop :=
  ∀ s : Session, s.Reachable → s.registry.get m.name = .ok m → ∀ op op' : Operation,
    op.model = m.name → Reordered op op' → outcomeOf (perform op s) = outcomeOf (perform op' s)

theorem outcomeOf_perform (hm : m.columns.Pairwise fun a b => sameName a.name b.name = false)
    (hget : s.registry.get m.name = .ok m) {op op' : Operation} (hop : op.model = m.name)
    (h : Reordered op op') : outcomeOf (perform op s) = outcomeOf (perform op' s) := by
  have hmodel : op'.model = op.model := by cases h <;> rfl
  have hfound : s.registry.get op.model = .ok m := hop ▸ hget
  have hplans : Together (fun p q => p.1 = m ∧ q.1 = m ∧ Plan.Alike p.2 q.2)
      (op.plan s.registry) (op'.plan s.registry) := by
    rw [plan_of_get op hfound, plan_of_get op' (hmodel ▸ hfound)]
    exact (Operation.planOn_together hm h).map fun _ _ halike => ⟨rfl, rfl, halike⟩
  apply outcomeOf_ofExcept_bind hplans
  rintro ⟨_, p⟩ ⟨_, q⟩ ⟨rfl, rfl, halike⟩
  have haccess : q.access = p.access := halike.access
  simp only [haccess]
  exact outcomeOf_run halike.action _ s

/-! ## Two columns of one name -/

/-- A tree with a file whose database has a table for the model with one column besides its key. -/
def foundFiles (m : Model) (column : String) : FileTree :=
  (⟨[]⟩ : FileTree).set ["found.db"] (.database ⟨[.single m.tableName column], .default⟩)

/-- A session of the model alone over that file. -/
def foundSession (m : Model) (column : String) : Session :=
  ⟨⟨"sqlite://found.db", "test", [m]⟩, .of "test" [m], .default, none, foundFiles m column, .default⟩

theorem foundSession_reachable (hm : m.validate = .ok ()) (column : String) :
    (foundSession m column).Reachable := by
  have hfiles : (foundFiles m column).Proper := by
    apply (FileTree.proper_ofTexts []).set
    intro db hdb
    cases hdb
    exact List.pairwise_singleton _ _
  have hconfig : ofConfig ⟨"sqlite://found.db", "test", [m]⟩ .default (foundFiles m column) =
      .ok (foundSession m column) := by
    rw [ofConfig, Registry.ofModels_single hm]
    rfl
  exact .opened hfiles hconfig

theorem foundSession_models (m : Model) (column : String) :
    (foundSession m column).registry.models = [m] := by
  simp [foundSession, Registry.models, Registry.find?, Registry.of]

theorem leadsTo_found (m : Model) (column : String) : (foundFiles m column).LeadsTo "found.db"
    ["found.db"] ⟨[.single m.tableName column], .default⟩ where
  parent := by rfl
  text := by decide +kernel
  follow := ⟨"found.db", Target.ofPath_of_plain (by decide +kernel), by rfl⟩
  node := FileTree.node?_set_self nofun

/-- The session when it has opened the file. -/
def foundOpened (m : Model) (column : String) : Session := (foundSession m column).after .init

/-- The opening leaves the table in the file as it is, even if it fails. -/
theorem foundOpened_database (m : Model) (column : String) :
    (foundOpened m column).database? = some ⟨[.single m.tableName column], .default⟩ := by
  have huri : Location.ofUri "sqlite://found.db" = .ok (.file "found.db") := by decide +kernel
  have htable : ∀ other ∈ (foundSession m column).registry.models,
      ((⟨[.single m.tableName column], .default⟩ : Database).table? other.tableName).isSome := by
    intro other hother
    rw [foundSession_models] at hother
    obtain rfl := List.mem_singleton.mp hother
    simp [Database.table?, Table.single]
  have hleads := leadsTo_found m column
  have hopened : foundOpened m column = _ := stateOf_init_reopen huri hleads htable
  have hnode : (foundOpened m column).files.node? ["found.db"] =
      some (.database ⟨[.single m.tableName column], .default⟩) := hopened ▸ (hleads.set _).node
  have hconnections : (foundOpened m column).connections =
      some (.ofFile .default ["found.db"]) := hopened ▸ rfl
  exact database?_of_node hconnections hnode

theorem foundOpened_setup (m : Model) (column : String) :
    (foundSession m column).SameSetup (foundOpened m column) := sameSetup_after _ .init

theorem foundOpened_get (hm : m.validate = .ok ()) (column : String) :
    (foundOpened m column).registry.get m.name = .ok m := by
  rw [(foundOpened_setup m column).registry]
  exact (foundSession_reachable hm column).registry_proper.get_of_mem
    (foundSession_models m column ▸ List.mem_cons_self)

/-- The creation of a record whose row the table takes leaves this row, even if there are too many
columns for reading it. -/
theorem create_found (hm : m.validate = .ok ()) {column : String} {record : Record}
    {cells : List (String × SqlValue)} (hc : m.encode true record = .ok cells)
    (hfit : Fit (m.insert cells).demands) {t : Table} {id : Int64}
    (hinsert : (Table.single m.tableName column).insert m.tableName cells = .ok (t, id)) :
    stateOf (perform (.create m.name record) (foundOpened m column)) =
      (foundOpened m column).setDatabase ⟨[t], .default⟩ := by
  have hget := foundOpened_get hm column
  have hplan : (Operation.create m.name record).plan (foundOpened m column).registry =
      .ok (m, ⟨.write, .record <$> m.createAction (m.insert cells)⟩) := by
    rw [plan_of_get (.create m.name record) hget, Model.planOn_create m.name hc, map_ok]
  have hstatement : (⟨[.single m.tableName column], .default⟩ : Database).insert (m.insert cells) =
      .ok (⟨[t], .default⟩, id) := by
    refine Database.insert_eq_ok.mpr ⟨hfit, _, t, ?_, hinsert, ?_⟩
    · simp [Database.table?, Table.single, Model.insert]
    · simp [Database.setTable, (Table.insert_name hinsert).1]
  have hmaster : (foundOpened m column).connectionOf m .write = masterName := by
    rw [connectionOf, (foundOpened_setup m column).router]
    rfl
  rw [perform_of_plan hplan, hmaster, run_master (foundOpened_database m column)]
  by_cases hnarrow : m.Narrow
  · obtain ⟨created, hfetch⟩ := Model.fetchById_of_insert hnarrow hstatement .creatingRecord
    have hcreate : m.createAction (m.insert cells) ⟨[.single m.tableName column], .default⟩ =
        .ok created ⟨[t], .default⟩ :=
      runBind_eq_ok.mpr ⟨id, _, Action.change_eq_ok.mpr hstatement, hfetch⟩
    simp only [runMap_eq_ok.mpr ⟨created, hcreate, rfl⟩, stateOf]
  · have hcreate := Model.createAction_of_wide hnarrow hstatement
    simp only [runMap_eq_error.mpr hcreate, stateOf]

/-- Of a zero and a one for two columns of one name, one is stored: the first, or the last if they
are keys. -/
theorem create_digits (hm : m.validate = .ok ()) {column : String} {a b : Column}
    (ha : a ∈ m.columns) (hb : b ∈ m.columns) (hsame : sameName a.name column = true)
    (hsame' : sameName b.name column = true) (one : Bool) : ∃ t,
    stateOf (perform (.create m.name [(a.name, a.kind.digit one), (b.name, b.kind.digit (!one))])
      (foundOpened m column)) = (foundOpened m column).setDatabase ⟨[t], .default⟩ ∧
        t.rows = [Table.singleRow column (if isIdName column = one then 0 else 1)] := by
  obtain ⟨v, hv, hfirst⟩ := Model.encodeMember_digit hm ha one
  obtain ⟨w, hw, hsecond⟩ := Model.encodeMember_digit hm hb (!one)
  obtain ⟨t, id, hinsert, hrows⟩ := Table.insert_single m.tableName hsame hsame' hfirst hsecond
  have hcells : m.encode true [(a.name, a.kind.digit one), (b.name, b.kind.digit (!one))] =
      .ok [(a.name, v), (b.name, w)] := Model.encode_pair hv hw
  have hfit : Fit (m.insert [(a.name, v), (b.name, w)]).demands :=
    fit_insert_iff.mpr (show 2 ≤ parameterLimit by decide)
  refine ⟨t, create_found hm hcells hfit hinsert, hrows.trans ?_⟩
  cases isIdName column <;> cases one <;> rfl

/-- Two columns of one name make the order of the members matter. -/
theorem columns_apart_of_irrelevant (hm : m.validate = .ok ()) (h : KeyOrderIrrelevant m)
    {a b : Column} (ha : a ∈ m.columns) (hb : b ∈ m.columns) (hne : a.name ≠ b.name) :
    sameName a.name b.name = false := by
  by_contra hsame
  rw [Bool.not_eq_false] at hsame
  have hself : sameName a.name a.name = true := sameName_self a.name
  have hother : sameName b.name a.name = true := (sameName_comm b.name a.name).trans hsame
  obtain ⟨t, hcreate, hrows⟩ := create_digits hm ha hb hself hother false
  obtain ⟨t', hcreate', hrows'⟩ := create_digits hm hb ha hother hself true
  rw [Bool.not_false] at hcreate
  rw [Bool.not_true] at hcreate'
  have hdistinct : Json.DistinctKeys [(a.name, a.kind.digit false), (b.name, b.kind.digit true)] := by
    simpa [Json.DistinctKeys] using hne
  have hreachable : (foundOpened m a.name).Reachable :=
    (foundSession_reachable hm a.name).after .init
  have houtcome := h _ hreachable (foundOpened_get hm a.name) (.create m.name _) (.create m.name _)
    rfl (.create hdistinct (.swap _ _ []))
  -- The two databases have the same rows, so the two numbers that were stored are the same.
  have hdatabase := congrArg (fun outcome => outcome.2.database?) houtcome
  have hfound := foundOpened_database m a.name
  simp only [outcomeOf_snd, hcreate, hcreate', setDatabase_database? hfound, Option.some.injEq,
    Database.mk.injEq, List.cons.injEq, and_true] at hdatabase
  rw [← hdatabase, hrows] at hrows'
  have hnumber := Table.singleRow_injective (List.cons.inj hrows').1
  cases hcolumn : isIdName a.name <;> rw [hcolumn] at hnumber <;> cases hnumber

end Session

end RecordStore
