import RecordStore.Proofs.Database.Limits

/-!
# Tables and their names

Names of tables are compared without regard to case, so a name is a class of spellings. The tables
of a database belong to different classes, every statement changes the table of one class only, and
the tables of the other classes stay as they are.
-/

namespace RecordStore

/-- Where all names are different, everything is found by its name. -/
theorem find?_of_distinct {α : Type} {name : α → String} {l : List α}
    (hd : l.Pairwise fun a b => name a ≠ name b) {a : α} (ha : a ∈ l) :
    l.find? (name · = name a) = some a := by
  induction l with
  | nil => exact absurd ha List.not_mem_nil
  | cons first rest ih =>
    obtain ⟨hhead, htail⟩ := List.pairwise_cons.mp hd
    rcases List.mem_cons.mp ha with rfl | ha
    · exact List.find?_cons_of_pos (decide_eq_true rfl)
    · rw [List.find?_cons_of_neg (by simpa using hhead a ha), ih htail ha]

/-- What only one element can be is found in every order of the list. -/
theorem find?_perm {α : Type} {p : α → Bool} {l l' : List α} (h : l'.Perm l)
    (hd : l.Pairwise fun a b => ¬ (p a ∧ p b)) : l'.find? p = l.find? p := by
  have hsymm {a b : α} (hab : ¬ (p a ∧ p b)) : ¬ (p b ∧ p a) := fun hba => hab hba.symm
  induction h with
  | nil => rfl
  | cons a _ ih => rw [List.find?_cons, List.find?_cons, ih (List.pairwise_cons.mp hd).2]
  | swap a b l =>
    have hne : ¬ (p a ∧ p b) := (List.pairwise_cons.mp hd).1 b List.mem_cons_self
    cases ha : p a with
    | false => simp only [List.find?_cons, ha]
    | true =>
      have hb : p b = false := by simpa [ha] using hne
      simp only [List.find?_cons, ha, hb]
  | trans _ h' ih ih' => rw [ih ((h'.pairwise_iff hsymm).mpr hd), ih' hd]

@[simp] theorem sameName_self (a : String) : sameName a a = true := by simp [sameName]

theorem sameName_comm (a b : String) : sameName a b = sameName b a := by
  simp [sameName, eq_comm]

theorem sameName_trans {a b c : String} (hab : sameName a b) (hbc : sameName b c) :
    sameName a c := by
  simp only [sameName, decide_eq_true_eq] at *
  exact hab.trans hbc

/-- Two spellings of one name agree with the same names. -/
theorem sameName_congr {a b : String} (h : sameName a b) (c : String) :
    sameName a c = sameName b c := by
  simp only [sameName, decide_eq_true_eq] at *
  rw [h]

theorem assigned?_eq_none {cells : List (String × SqlValue)} {name : String} :
    assigned? cells name = none ↔ ∀ cell ∈ cells, sameName cell.1 name = false := by
  simp [assigned?]

theorem assigned?_eq_some {cells : List (String × SqlValue)} {name : String} {value : SqlValue}
    (h : assigned? cells name = some value) :
    ∃ cell ∈ cells, cell.2 = value ∧ sameName cell.1 name := by
  obtain ⟨cell, hcell, rfl⟩ := Option.map_eq_some_iff.mp h
  have hname := List.find?_some hcell
  exact ⟨cell, List.mem_of_find?_eq_some hcell, rfl, hname⟩

namespace Database

/-- No two tables have the same name. -/
def DistinctNames (db : Database) : Prop :=
  db.tables.Pairwise fun a b => sameName a.name b.name = false

theorem table?_name {db : Database} {name : String} {t : Table} (h : db.table? name = some t) :
    sameName t.name name := by
  simpa using List.find?_some h

theorem table?_mem {db : Database} {name : String} {t : Table} (h : db.table? name = some t) :
    t ∈ db.tables := List.mem_of_find?_eq_some h

theorem table?_congr {a b : String} (h : sameName a b) (db : Database) :
    db.table? a = db.table? b := by
  have hc (t : Table) : sameName t.name a = sameName t.name b := by
    rw [sameName_comm, sameName_congr h, sameName_comm]
  simp only [table?, hc]

theorem table_eq_ok {db : Database} {name : String} {t : Table} :
    db.table name = .ok t ↔ db.table? name = some t := by
  unfold table
  cases db.table? name with
  | none => simp
  | some t' => simp

theorem setTable_name {t other : Table} :
    sameName (if sameName other.name t.name then t else other).name other.name := by
  split
  next h => rwa [sameName_comm]
  next => exact sameName_self _

/-- The table of a name after a table of that name was put in its place. -/
theorem table?_setTable_self {db : Database} {t t' : Table} {name : String}
    (ht : db.table? name = some t) (h : sameName t'.name name) :
    (db.setTable t').table? name = some t' := by
  unfold table? at ht
  simp only [table?, setTable]
  generalize db.tables = tables at ht
  induction tables with
  | nil => simp at ht
  | cons other rest ih =>
    by_cases hn : sameName other.name name = true
    · have hs : sameName other.name t'.name = true :=
        sameName_trans hn (by rwa [sameName_comm])
      simp [hs, h]
    · have hs : ¬ sameName other.name t'.name = true := fun hs => hn (sameName_trans hs h)
      rw [Bool.not_eq_true] at hn
      simp only [List.find?_cons, hn] at ht
      simp only [List.map_cons, if_neg hs, List.find?_cons, hn]
      exact ih ht

/-- Tables of other names stay as they are. -/
theorem table?_setTable_of_ne {t : Table} {name : String} (h : sameName t.name name = false)
    (db : Database) : (db.setTable t).table? name = db.table? name := by
  simp only [table?, setTable]
  induction db.tables with
  | nil => rfl
  | cons other rest ih =>
    by_cases hs : sameName other.name t.name = true
    · have hn : sameName other.name name = false := by rw [sameName_congr hs, h]
      simp [hs, hn, h, ih]
    · by_cases hn : sameName other.name name = true
      · simp [hs, hn]
      · simp [hs, hn, ih]

theorem setTable_distinctNames {db : Database} (h : db.DistinctNames) (t : Table) :
    (db.setTable t).DistinctNames := by
  refine List.pairwise_map.mpr (h.imp fun {a b} hab => ?_)
  rw [sameName_congr setTable_name, sameName_comm, sameName_congr setTable_name, sameName_comm]
  exact hab

/-- Putting a table in its own place changes nothing. -/
theorem setTable_table? {db : Database} (h : db.DistinctNames) {name : String} {t : Table}
    (ht : db.table? name = some t) : db.setTable t = db := by
  have hmem := table?_mem ht
  suffices hmap : db.tables.map (fun other => if sameName other.name t.name then t else other) =
      db.tables by
    unfold setTable
    rw [hmap]
  unfold DistinctNames at h
  generalize db.tables = tables at h hmem
  induction tables with
  | nil => rfl
  | cons other rest ih =>
    obtain ⟨hhead, htail⟩ := List.pairwise_cons.mp h
    rcases List.mem_cons.mp hmem with rfl | hmem
    · have hrest : rest.map (fun other => if sameName other.name t.name then t else other) =
          rest.map id := List.map_congr_left fun other ho => by
        rw [sameName_comm, if_neg (by simp [hhead other ho]), id_eq]
      rw [List.map_cons, hrest, List.map_id, sameName_self, if_pos rfl]
    · rw [List.map_cons, ih htail hmem, if_neg (by simp [hhead t hmem])]

/-- Of two tables of one name that are put in the same place, the second stays. -/
theorem setTable_setTable {t t' : Table} (hname : t'.name = t.name) (db : Database) :
    (db.setTable t).setTable t' = db.setTable t' := by
  simp only [setTable, List.map_map]
  refine congrArg (Database.mk · db.planner) (List.map_congr_left fun other _ => ?_)
  by_cases hsame : sameName other.name t.name = true
  · simp [hname, hsame, sameName_self]
  · simp [hname, hsame]

theorem empty_distinctNames (planner : Planner) : (empty planner).DistinctNames := List.Pairwise.nil

/-! What each statement does to a database: if it is within the limits, it reads the table that it
names or replaces it. -/

theorem select_eq_ok {db : Database} {s : Select} {rows : List (List SqlValue)} :
    db.select s = .ok rows ↔ s.Fits ∧ ∃ t sorted, db.table? s.table = some t ∧
      sortRows s.order t (db.planner.visit t s.condition s.order) = .ok sorted ∧
        rows = (RowWindow.show s.window sorted).map fun row =>
          s.columns.map fun name => (t.read row name).2 := by
  rw [select, check_eq_ok, readText_eq_ok, bind_eq_ok]
  simp only [check_eq_ok, checkSize_eq_ok, table_eq_ok]
  simp only [bind_eq_ok, Except.ok.injEq]
  constructor
  · rintro ⟨htext, t, ht, hcolumns, horder, sorted, hsorted, rfl⟩
    exact ⟨⟨htext, hcolumns, horder⟩, t, sorted, ht, hsorted, rfl⟩
  · rintro ⟨⟨htext, hcolumns, horder⟩, t, sorted, ht, hsorted, rfl⟩
    exact ⟨htext, t, ht, hcolumns, horder, sorted, hsorted, rfl⟩

theorem count_eq_ok {db : Database} {s : Count} {n : Nat} :
    db.count s = .ok n ↔ Fit s.demands ∧ ∃ t, db.table? s.table = some t ∧
      n = (t.matching s.condition).length := by
  rw [count, check_eq_ok, readText_eq_ok, bind_eq_ok]
  simp only [table_eq_ok, Except.ok.injEq, eq_comm (a := n)]

theorem exists?_eq_ok {db : Database} {s : Exists} {b : Bool} :
    db.exists? s = .ok b ↔ s.Fits ∧ ∃ t, db.table? s.table = some t ∧
      b = t.rows.any (Clause.selects s.condition t) := by
  rw [exists?, check_eq_ok, readText_eq_ok, bind_eq_ok]
  simp only [check_eq_ok, Exists.checkLevels_eq_ok, table_eq_ok, Except.ok.injEq]
  constructor
  · rintro ⟨htext, t, ht, hlevels, rfl⟩
    exact ⟨⟨htext, hlevels⟩, t, ht, rfl⟩
  · rintro ⟨⟨htext, hlevels⟩, t, ht, rfl⟩
    exact ⟨htext, t, ht, hlevels, rfl⟩

theorem insert_eq_ok {db db' : Database} {s : Insert} {id : Int64} :
    db.insert s = .ok (db', id) ↔ Fit s.demands ∧ ∃ t t', db.table? s.table = some t ∧
      t.insert s.table s.cells = .ok (t', id) ∧ db' = db.setTable t' := by
  rw [insert, check_eq_ok, readText_eq_ok]
  refine and_congr_right fun _ => ?_
  simp only [bind_eq_ok, table_eq_ok]
  constructor
  · rintro ⟨t, ht, ⟨t', id'⟩, hi, h⟩
    simp only [Except.ok.injEq, Prod.mk.injEq] at h
    obtain ⟨rfl, rfl⟩ := h
    exact ⟨t, t', ht, hi, rfl⟩
  · rintro ⟨t, t', ht, hi, rfl⟩
    exact ⟨t, ht, (t', id), hi, rfl⟩

theorem insert_distinctNames {db db' : Database} {s : Insert} {id : Int64} (hd : db.DistinctNames)
    (h : db.insert s = .ok (db', id)) : db'.DistinctNames := by
  obtain ⟨_, _, t', _, _, rfl⟩ := insert_eq_ok.mp h
  exact setTable_distinctNames hd t'

theorem update_eq_ok {db db' : Database} {s : Update} {n : Nat} :
    db.update s = .ok (db', n) ↔ s.Fits ∧ ∃ t t', db.table? s.table = some t ∧
      t.update s.cells s.condition = .ok (t', n) ∧ db' = db.setTable t' := by
  rw [update, check_eq_ok, check_eq_ok, readText_eq_ok, checkSize_eq_ok, ← and_assoc]
  refine and_congr ⟨fun h => ⟨h.1, h.2⟩, fun h => ⟨h.text, h.cells⟩⟩ ?_
  simp only [bind_eq_ok, table_eq_ok]
  constructor
  · rintro ⟨t, ht, ⟨t', n'⟩, hu, h⟩
    simp only [Except.ok.injEq, Prod.mk.injEq] at h
    obtain ⟨rfl, rfl⟩ := h
    exact ⟨t, t', ht, hu, rfl⟩
  · rintro ⟨t, t', ht, hu, rfl⟩
    exact ⟨t, ht, (t', n), hu, rfl⟩

/-- An update within the limits is refused as the table refuses it. -/
theorem update_refused {db : Database} {s : Update} (hfits : s.Fits) {t : Table}
    (ht : db.table? s.table = some t) {cause : DatabaseFault}
    (h : t.update s.cells s.condition = .error cause) : db.update s = .error cause := by
  rw [update, readText_eq_ok.mpr hfits.text, ok_bind, checkSize_eq_ok.mpr hfits.cells, ok_bind,
    table_eq_ok.mpr ht, ok_bind, h, error_bind]

theorem delete_eq_ok {db db' : Database} {s : Delete} {n : Nat} :
    db.delete s = .ok (db', n) ↔ Fit s.demands ∧ ∃ t, db.table? s.table = some t ∧
      n = (t.matching s.condition).length ∧ db' = db.setTable (t.delete s.condition).1 := by
  rw [delete, check_eq_ok, readText_eq_ok]
  refine and_congr_right fun _ => ?_
  simp only [bind_eq_ok, table_eq_ok, Table.delete, Except.ok.injEq, Prod.mk.injEq]
  constructor
  · rintro ⟨t, ht, rfl, rfl⟩
    exact ⟨t, ht, rfl, rfl⟩
  · rintro ⟨t, ht, rfl, rfl⟩
    exact ⟨t, ht, rfl, rfl⟩

/-! Where there is no table of the name, a statement within the limits finds none. -/

theorem select_of_missing {db : Database} {s : Select} (h : db.table? s.table = none)
    (hfit : Fit s.demands) : db.select s = .error (.noSuchTable s.table) := by
  rw [select, readText_eq_ok.mpr hfit, ok_bind, table, h, error_bind]

theorem count_of_missing {db : Database} {s : Count} (h : db.table? s.table = none)
    (hfit : Fit s.demands) : db.count s = .error (.noSuchTable s.table) := by
  rw [count, readText_eq_ok.mpr hfit, ok_bind, table, h, error_bind]

/-! A statement that names a table and is beyond the limits is refused for asking too much. -/

section
variable {db : Database} {t : Table}

theorem select_exceeds {s : Select} (ht : db.table? s.table = some t) (h : ¬ s.Fits) :
    ∃ cause, cause.isLimit = true ∧ db.select s = .error cause := by
  refine exceeds_of_check (limited_readText _ _) fun htext => ?_
  rw [table_eq_ok.mpr ht, ok_bind]
  refine exceeds_of_check (limited_checkSize _ _) fun hcolumns => ?_
  refine exceeds_of_check (limited_checkSize _ _) fun horder => ?_
  exact absurd ⟨readText_eq_ok.mp htext, checkSize_eq_ok.mp hcolumns, checkSize_eq_ok.mp horder⟩ h

theorem count_exceeds {s : Count} (h : ¬ Fit s.demands) :
    ∃ cause, cause.isLimit = true ∧ db.count s = .error cause :=
  exceeds_of_check (limited_readText _ _) fun htext => absurd (readText_eq_ok.mp htext) h

theorem exists?_exceeds {s : Exists} (ht : db.table? s.table = some t) (h : ¬ s.Fits) :
    ∃ cause, cause.isLimit = true ∧ db.exists? s = .error cause := by
  refine exceeds_of_check (limited_readText _ _) fun htext => ?_
  rw [table_eq_ok.mpr ht, ok_bind]
  refine exceeds_of_check s.limited_checkLevels fun hlevels => ?_
  exact absurd ⟨readText_eq_ok.mp htext, Exists.checkLevels_eq_ok.mp hlevels⟩ h

theorem update_exceeds {s : Update} (h : ¬ s.Fits) :
    ∃ cause, cause.isLimit = true ∧ db.update s = .error cause := by
  refine exceeds_of_check (limited_readText _ _) fun htext => ?_
  refine exceeds_of_check (limited_checkSize _ _) fun hcells => ?_
  exact absurd ⟨readText_eq_ok.mp htext, checkSize_eq_ok.mp hcells⟩ h

theorem delete_exceeds {s : Delete} (h : ¬ Fit s.demands) :
    ∃ cause, cause.isLimit = true ∧ db.delete s = .error cause :=
  exceeds_of_check (limited_readText _ _) fun htext => absurd (readText_eq_ok.mp htext) h

end

/-- A table is created at the end, unless there is one of its name. -/
theorem createTable_eq_ok {db db' : Database} {s : CreateTable} (h : db.createTable s = .ok db') :
    db' = db ∧ (db.table? s.table).isSome ∨
      db.table? s.table = none ∧ checkColumns s ["_id"] s.columns = .ok () ∧
        db' = { db with tables := db.tables ++ [⟨s.table, s.columns, [], 0⟩] } := by
  unfold createTable at h
  split at h
  · cases h
  · cases ht : db.table? s.table with
    | some t =>
      simp only [ht, bind_eq_ok, Except.ok.injEq] at h
      obtain ⟨_, _, rfl⟩ := h
      exact .inl ⟨rfl, rfl⟩
    | none =>
      simp only [ht, bind_eq_ok, Except.ok.injEq] at h
      obtain ⟨_, hc, rfl⟩ := h
      exact .inr ⟨rfl, hc, rfl⟩

theorem createTable_distinctNames {db db' : Database} {s : CreateTable} (hd : db.DistinctNames)
    (h : db.createTable s = .ok db') : db'.DistinctNames := by
  rcases createTable_eq_ok h with ⟨rfl, _⟩ | ⟨hn, _, rfl⟩
  · exact hd
  · refine List.pairwise_append.mpr ⟨hd, List.pairwise_singleton _ _, fun t ht t' ht' => ?_⟩
    rw [List.mem_singleton.mp ht']
    simpa using List.find?_eq_none.mp hn t ht

end Database

end RecordStore
