import RecordStore.Proofs.Database.Names
import RecordStore.Query.Compile

/-!
# Rows of tables

What adding, changing and removing rows keeps: the name and the columns of the table and the number
of cells of every row. A table that was created for a model therefore goes on to hold the columns of
the model, and reading a column of the model by its name finds the cell at the place of the column.
-/

namespace RecordStore

theorem RowWindow.show_sublist {α : Type} {window : Option RowWindow} {rows : List α} :
    (RowWindow.show window rows).Sublist rows := by
  cases window with
  | none => exact List.Sublist.refl _
  | some window => exact (List.take_sublist _ _).trans (List.drop_sublist _ _)

/-! Whatever way a planner picks, it comes upon the rows that meet the condition. -/

namespace Planner

variable {t : Table} {condition : Option Clause} {terms : List OrderTerm} {row : Row}

theorem mem_visit (p : Planner) :
    row ∈ p.visit t condition terms ↔ row ∈ t.rows ∧ Clause.selects condition t row = true :=
  (p.perm t condition terms).mem_iff.trans List.mem_filter

theorem length_visit (p : Planner) :
    (p.visit t condition terms).length = (t.matching condition).length :=
  (p.perm t condition terms).length_eq

theorem visit_of_nil (p : Planner) (h : t.matching condition = []) :
    p.visit t condition terms = [] := (h ▸ p.perm t condition terms).eq_nil

theorem visit_of_singleton (p : Planner) (h : t.matching condition = [row]) :
    p.visit t condition terms = [row] := List.perm_singleton.mp (h ▸ p.perm t condition terms)

end Planner

theorem sortRows_mem {terms : List OrderTerm} {t : Table} {rows sorted : List Row}
    (h : sortRows terms t rows = .ok sorted) : ∀ row ∈ sorted, row ∈ rows := by
  unfold sortRows at h
  split at h
  · cases h
    exact fun _ hrow => hrow
  · simp only [bind_eq_ok, Except.ok.injEq] at h
    obtain ⟨keyed, hkeyed, rfl⟩ := h
    intro row hrow
    obtain ⟨⟨keys, other⟩, hmem, rfl⟩ := List.mem_map.mp hrow
    obtain ⟨first, hfirst, hpair⟩ := mem_of_mapM hkeyed (List.mem_mergeSort.mp hmem)
    simp only [bind_eq_ok, pure, Except.pure, Except.ok.injEq, Prod.mk.injEq] at hpair
    obtain ⟨_, _, rfl, rfl⟩ := hpair
    exact hfirst

namespace Table

@[simp] theorem mem_insertRow {row other : Row} {rows : List Row} :
    other ∈ insertRow row rows ↔ other = row ∨ other ∈ rows := by
  induction rows with
  | nil => simp [insertRow]
  | cons first rest ih =>
    unfold insertRow
    split
    · simp
    · rw [List.mem_cons, ih, List.mem_cons]
      exact or_left_comm

/-- The table after a row was added. -/
theorem insert_eq_ok {t t' : Table} {name : String} {cells : List (String × SqlValue)} {id : Int64}
    (h : t.insert name cells = .ok (t', id)) :
    t.newId cells = .ok id ∧
      t' = ⟨t.name, t.columns, insertRow ⟨id, t.newCells cells⟩ t.rows, max t.sequence id⟩ := by
  unfold insert at h
  split at h
  · cases h
  · simp only [bind_eq_ok, Except.ok.injEq, Prod.mk.injEq] at h
    obtain ⟨id', hid, _, _, _, _, rfl, rfl⟩ := h
    exact ⟨hid, rfl⟩

/-- The row with the given cells set has a cell for each column that it had one for. -/
theorem assign_length {t : Table} {cells : List (String × SqlValue)} {row changed : Row}
    (h : t.assign cells row = .ok changed) :
    changed.cells.length = min t.columns.length row.cells.length := by
  unfold assign at h
  split at h
  all_goals
    simp only [bind_eq_ok, Except.ok.injEq] at h
    obtain ⟨_, _, rfl⟩ := h
    rw [List.length_map, List.length_zip]

/-- The table after one of its rows was changed. -/
theorem updateRow_eq_ok {t t' : Table} {cells : List (String × SqlValue)} {row : Row}
    (h : updateRow cells t row = .ok t') :
    ∃ changed, t.assign cells row = .ok changed ∧
      t' = { t with rows := insertRow changed (t.rows.filter (·.id ≠ row.id)) } := by
  simp only [updateRow, bind_eq_ok, Except.ok.injEq] at h
  obtain ⟨changed, hc, _, _, _, _, rfl⟩ := h
  exact ⟨changed, hc, rfl⟩

/-- What every change of a row keeps, a change of several rows keeps. -/
theorem update_induction {P : Table → Prop} {t t' : Table} {cells : List (String × SqlValue)}
    {condition : Option Clause} {n : Nat} (h : t.update cells condition = .ok (t', n)) (ht : P t)
    (step : ∀ row ∈ t.matching condition, ∀ u u', P u → updateRow cells u row = .ok u' → P u') :
    P t' := by
  unfold update at h
  split at h
  · cases h
  · simp only [bind_eq_ok, Except.ok.injEq, Prod.mk.injEq] at h
    obtain ⟨u, hu, rfl, rfl⟩ := h
    exact foldlM_induction hu ht step

theorem update_name {t t' : Table} {cells : List (String × SqlValue)} {condition : Option Clause}
    {n : Nat} (h : t.update cells condition = .ok (t', n)) :
    t'.name = t.name ∧ t'.columns = t.columns := by
  refine update_induction (P := fun u => u.name = t.name ∧ u.columns = t.columns) h ⟨rfl, rfl⟩ ?_
  intro row _ u u' hu hstep
  obtain ⟨_, _, rfl⟩ := updateRow_eq_ok hstep
  exact hu

theorem insert_name {t t' : Table} {name : String} {cells : List (String × SqlValue)} {id : Int64}
    (h : t.insert name cells = .ok (t', id)) : t'.name = t.name ∧ t'.columns = t.columns := by
  obtain ⟨_, rfl⟩ := insert_eq_ok h
  exact ⟨rfl, rfl⟩

/-- Every row has a cell for each column. -/
def Shaped (t : Table) : Prop := ∀ row ∈ t.rows, row.cells.length = t.columns.length

theorem insert_shaped {t t' : Table} {name : String} {cells : List (String × SqlValue)} {id : Int64}
    (hs : t.Shaped) (h : t.insert name cells = .ok (t', id)) : t'.Shaped := by
  obtain ⟨_, rfl⟩ := insert_eq_ok h
  intro row hrow
  rcases mem_insertRow.mp hrow with rfl | hrow
  · exact List.length_map _
  · exact hs row hrow

theorem update_shaped {t t' : Table} {cells : List (String × SqlValue)} {condition : Option Clause}
    {n : Nat} (hs : t.Shaped) (h : t.update cells condition = .ok (t', n)) : t'.Shaped := by
  have hrows : t'.columns = t.columns ∧ t'.Shaped := by
    refine update_induction (P := fun u => u.columns = t.columns ∧ u.Shaped) h ⟨rfl, hs⟩ ?_
    intro row hrow u u' hu hstep
    obtain ⟨changed, hc, rfl⟩ := updateRow_eq_ok hstep
    refine ⟨hu.1, fun other hother => ?_⟩
    rcases mem_insertRow.mp hother with rfl | hother
    · have hlen : row.cells.length = t.columns.length := hs row (List.mem_filter.mp hrow).1
      rw [assign_length hc, hlen, hu.1, Nat.min_self]
    · exact hu.2 other (List.mem_filter.mp hother).1
  exact hrows.2

theorem matching_none (t : Table) : t.matching none = t.rows :=
  List.filter_eq_self.mpr fun _ _ => rfl

theorem delete_none (t : Table) : t.delete none = ({ t with rows := [] }, t.rows.length) := by
  have hrows : t.rows.filter (¬ Clause.selects none t ·) = [] :=
    List.filter_eq_nil_iff.mpr fun row _ => by simp [Clause.selects]
  rw [delete, hrows, matching_none]

/-- Removing no rows leaves a table as it is. -/
theorem delete_of_matching_eq_nil {t : Table} {condition : Option Clause}
    (h : t.matching condition = []) : (t.delete condition).1 = t := by
  have hrows : t.rows.filter (¬ Clause.selects condition t ·) = t.rows := by
    rw [List.filter_eq_self]
    intro row hrow
    simpa using List.filter_eq_nil_iff.mp h row hrow
  simp only [delete, hrows]

theorem delete_shaped {t : Table} (hs : t.Shaped) (condition : Option Clause) :
    (t.delete condition).1.Shaped := fun row hrow => hs row (List.mem_filter.mp hrow).1

end Table

namespace Database

/-- A default can be written in a statement: it is no text with a zero character. -/
def Writable (default : Option SqlValue) : Prop :=
  ∀ text, default = some (.text text) → '\x00' ∉ text.toList

theorem checkDefault_eq_ok {s : CreateTable} {default : Option SqlValue} :
    checkDefault s default = .ok () ↔ Writable default := by
  unfold checkDefault Writable
  split
  next text => simp
  next hnot => simpa using fun text htext => absurd htext (hnot text)

/-- The table of a new row stands in the place of the one before it. -/
theorem insert_table {db db' : Database} {s : Insert} {id : Int64} (h : db.insert s = .ok (db', id)) :
    ∃ t t', db.table? s.table = some t ∧ t.insert s.table s.cells = .ok (t', id) ∧
      db'.table? s.table = some t' := by
  obtain ⟨_, t, t', ht, hi, rfl⟩ := insert_eq_ok.mp h
  have hname : sameName t'.name s.table := (Table.insert_name hi).1 ▸ table?_name ht
  exact ⟨t, t', ht, hi, table?_setTable_self ht hname⟩

/-- The columns of a new table are not too many, they are not called like earlier ones nor like one
another, and their defaults can be written. -/
theorem checkColumns_eq_ok {s : CreateTable} {earlier : List String} {specs : List ColumnSpec}
    (h : earlier.length ≤ columnLimit) : checkColumns s earlier specs = .ok () ↔
      (∀ spec ∈ specs, Writable spec.default) ∧ earlier.length + specs.length ≤ columnLimit ∧
        (∀ spec ∈ specs, ∀ name ∈ earlier, sameName name spec.name = false) ∧
          specs.Pairwise fun a b => sameName a.name b.name = false := by
  induction specs generalizing earlier with
  | nil => simp [checkColumns, h]
  | cons spec rest ih =>
    unfold checkColumns
    split
    next hfull =>
      simp only [reduceCtorEq, List.length_cons, false_iff]
      rintro ⟨_, hsize, _⟩
      omega
    next hroom =>
      split
      next hname =>
        simp only [reduceCtorEq, false_iff]
        rintro ⟨_, _, hearlier, _⟩
        obtain ⟨name, hmem, hsame⟩ := List.any_eq_true.mp hname
        rw [hearlier spec List.mem_cons_self name hmem] at hsame
        cases hsame
      next hname =>
        have hnew : ∀ name ∈ earlier, sameName name spec.name = false := by
          simpa using hname
        have hlength : (spec.name :: earlier).length ≤ columnLimit := by
          rw [List.length_cons]
          omega
        simp only [bind_eq_ok, ih hlength, List.forall_mem_cons, List.pairwise_cons,
          List.length_cons]
        constructor
        · rintro ⟨⟨⟩, hdefault, hdefaults, hsize, hearlier, hrest⟩
          exact ⟨⟨checkDefault_eq_ok.mp hdefault, hdefaults⟩, by omega,
            ⟨hnew, fun other ho => (hearlier other ho).2⟩, fun other ho => (hearlier other ho).1,
            hrest⟩
        · rintro ⟨⟨hdefault, hdefaults⟩, hsize, ⟨_, hearlier⟩, hfirst, hrest⟩
          exact ⟨(), checkDefault_eq_ok.mpr hdefault, hdefaults, by omega,
            fun other ho => ⟨hfirst other ho, hearlier other ho⟩, hrest⟩

end Database

namespace Model

/-- A row of a model can be read, since it has no more columns than the database reads at once. -/
def Narrow (m : Model) : Prop := m.columns.length ≤ columnLimit

instance (m : Model) : Decidable m.Narrow :=
  inferInstanceAs (Decidable (m.columns.length ≤ columnLimit))

/-- What the table of a model can be: it is created for the model, and rows are added to it, changed
and removed. -/
inductive OwnTable (m : Model) : Table → Prop
  | created {s : CreateTable} (hs : m.createTable = .ok s)
      (hc : Database.checkColumns s ["_id"] s.columns = .ok ()) :
      OwnTable m ⟨s.table, s.columns, [], 0⟩
  | inserted {t t' : Table} {name : String} {cells : List (String × SqlValue)} {id : Int64}
      (ht : OwnTable m t) (h : t.insert name cells = .ok (t', id)) : OwnTable m t'
  | updated {t t' : Table} {cells : List (String × SqlValue)} {condition : Option Clause} {n : Nat}
      (ht : OwnTable m t) (h : t.update cells condition = .ok (t', n)) : OwnTable m t'
  | deleted {t : Table} (condition : Option Clause) (ht : OwnTable m t) :
      OwnTable m (t.delete condition).1

namespace OwnTable

variable {m : Model} {t : Table}

theorem shaped (h : m.OwnTable t) : t.Shaped := by
  induction h with
  | created => exact fun _ h => absurd h List.not_mem_nil
  | inserted _ h ih => exact Table.insert_shaped ih h
  | updated _ h ih => exact Table.update_shaped ih h
  | deleted condition _ ih => exact Table.delete_shaped ih condition

theorem columns (h : m.OwnTable t) : m.fields.mapM columnSpec = .ok t.columns := by
  induction h with
  | created hs =>
    simp only [createTable, bind_eq_ok, Except.ok.injEq] at hs
    obtain ⟨specs, hspecs, rfl⟩ := hs
    exact hspecs
  | inserted _ h ih => rw [(Table.insert_name h).2, ih]
  | updated _ h ih => rw [(Table.update_name h).2, ih]
  | deleted condition _ ih => exact ih

theorem distinct (h : m.OwnTable t) :
    (∀ spec ∈ t.columns, isIdName spec.name = false) ∧
      t.columns.Pairwise fun a b => sameName a.name b.name = false := by
  induction h with
  | created _ hc =>
    obtain ⟨_, _, hid, hd⟩ := (Database.checkColumns_eq_ok (by decide)).mp hc
    refine ⟨fun spec hspec => ?_, hd⟩
    rw [isIdName, sameName_comm]
    exact hid spec hspec "_id" List.mem_cons_self
  | inserted _ h ih => rwa [(Table.insert_name h).2]
  | updated _ h ih => rwa [(Table.update_name h).2]
  | deleted condition _ ih => exact ih

/-- A model that has a table of its own is narrow. -/
theorem narrow (h : m.OwnTable t) : m.Narrow := by
  induction h with
  | created hs hc =>
    simp only [createTable, bind_eq_ok, Except.ok.injEq] at hs
    obtain ⟨specs, hspecs, rfl⟩ := hs
    obtain ⟨_, hsize, _⟩ := (Database.checkColumns_eq_ok (by decide)).mp hc
    rw [mapM_length hspecs, List.length_singleton] at hsize
    rw [Narrow, Model.columns, List.length_cons, List.length_map]
    omega
  | inserted _ _ ih | updated _ _ ih => exact ih
  | deleted _ _ ih => exact ih

end OwnTable

end Model

end RecordStore
