import RecordStore.Proofs.Database.Sorted

/-!
# Rows that were checked

No two rows of a table have the same value in a unique column, and no row is empty in a column that
must not be empty: a row is checked when it is added and whenever it is changed. A row that was
checked passes the checks again as long as it stays in the table, so that a change that gives a row
the cells that it has already is never refused, and changes nothing.
-/

namespace RecordStore

/-! ## The order of values -/

theorem Double.compareValue_self (x : Double) : x.compareValue x = .eq := by
  cases x with
  | finite x =>
    rw [compareValue]
    exact Std.ReflCmp.compare_self
  | infinity negative =>
    rw [compareValue]
    exact Std.ReflCmp.compare_self
  | nan => rfl

theorem Double.compareValue_comm {x y : Double} (h : x.compareValue y = .eq) :
    y.compareValue x = .eq := by
  cases x with
  | finite x =>
    cases y with
    | finite y =>
      rw [compareValue] at h
      rw [compareValue, Std.LawfulEqCmp.eq_of_compare h]
      exact Std.ReflCmp.compare_self
    | infinity negative => cases negative <;> cases h
    | nan => cases h
  | infinity negative =>
    cases y with
    | finite y => cases negative <;> cases h
    | infinity other =>
      rw [compareValue] at h
      rw [compareValue, Std.LawfulEqCmp.eq_of_compare h]
      exact Std.ReflCmp.compare_self
    | nan => cases h
  | nan =>
    cases y with
    | nan => rfl
    | _ => cases h

namespace SqlValue

theorem order_self (a : SqlValue) : a.order a = .eq := by
  cases a with
  | null => rfl
  | integer n =>
    rw [order]
    exact Std.ReflCmp.compare_self
  | real x => exact x.compareValue_self
  | text s =>
    rw [order]
    exact Std.ReflCmp.compare_self

theorem order_comm {a b : SqlValue} (h : a.order b = .eq) : b.order a = .eq := by
  cases a with
  | null =>
    cases b with
    | null => rfl
    | _ => cases h
  | integer n =>
    cases b with
    | integer k =>
      rw [order] at h
      rw [order, Std.LawfulEqCmp.eq_of_compare h]
      exact Std.ReflCmp.compare_self
    | real x =>
      rw [order] at h
      rw [order, h]
      rfl
    | _ => cases h
  | real x =>
    cases b with
    | integer k =>
      rw [order, Ordering.swap_eq_eq] at h
      exact h
    | real y => exact Double.compareValue_comm h
    | _ => cases h
  | text s =>
    cases b with
    | text r =>
      rw [order] at h
      rw [Std.LawfulEqCmp.eq_of_compare h, order_self]
    | _ => cases h

end SqlValue

namespace Table

/-! ## What the checks say -/

/-- A column is found by its name at its place. -/
theorem lookup?_of_zip {specs : List ColumnSpec} {cells : List SqlValue}
    (hd : specs.Pairwise fun a b => sameName a.name b.name = false) {spec : ColumnSpec}
    {cell : SqlValue} (h : (spec, cell) ∈ specs.zip cells) :
    lookup? spec.name specs cells = some (spec.type, cell) := by
  induction specs generalizing cells with
  | nil => exact absurd h List.not_mem_nil
  | cons first rest ih =>
    obtain ⟨hfirst, hrest⟩ := List.pairwise_cons.mp hd
    cases cells with
    | nil => exact absurd h List.not_mem_nil
    | cons cell' cells =>
      rw [List.zip_cons_cons] at h
      rcases List.mem_cons.mp h with heq | hmem
      · obtain ⟨rfl, rfl⟩ := Prod.mk.inj heq
        rw [lookup?, sameName_self, if_pos rfl]
      · have hapart := hfirst spec (List.of_mem_zip hmem).1
        rw [lookup?, hapart, if_neg Bool.false_ne_true, ih hrest hmem]

/-- A row has a cell wherever a column must not be empty. -/
def Full (t : Table) (row : Row) : Prop :=
  ∀ entry ∈ t.columns.zip row.cells, entry.1.notNull = true → entry.2 ≠ .null

/-- Two rows have the same value in a unique column. -/
def Clash (t : Table) (a b : Row) : Prop :=
  ∃ spec x y, (spec, x) ∈ t.columns.zip a.cells ∧ (spec, y) ∈ t.columns.zip b.cells ∧
    spec.unique = true ∧ x ≠ .null ∧ x.order y = .eq

theorem Clash.symm {t : Table} {a b : Row} (h : t.Clash a b) : t.Clash b a := by
  obtain ⟨spec, x, y, hx, hy, hunique, hne, hsame⟩ := h
  refine ⟨spec, y, x, hy, hx, hunique, fun hnull => ?_, SqlValue.order_comm hsame⟩
  subst hnull
  cases x with
  | null => exact hne rfl
  | _ => cases hsame

/-- Cells of columns that there are name no other column. -/
theorem find?_unknown_eq_none {t : Table} {cells : List (String × SqlValue)}
    (h : ∀ given ∈ cells, t.hasColumn given.1 = true) :
    cells.find? (fun (name, _) => ¬ t.hasColumn name) = none := by
  rw [List.find?_eq_none]
  intro given hgiven
  simp [h given hgiven]

theorem checkNotNull_iff {t : Table} {row : Row} : t.checkNotNull row = .ok () ↔ t.Full row := by
  refine ⟨checkNotNull_eq_ok, fun hfull => ?_⟩
  unfold checkNotNull
  split
  next spec cell hfound =>
    have hempty := List.find?_some hfound
    obtain ⟨hnotNull, hnull⟩ := Bool.and_eq_true_iff.mp hempty
    have hentry := List.mem_of_find?_eq_some hfound
    exact absurd (of_decide_eq_true hnull) (hfull _ hentry hnotNull)
  next => rfl

/-- A cell repeats no value exactly if its row clashes with none in this column. -/
theorem repeats_eq_false {t : Table}
    (hd : t.columns.Pairwise fun a b => sameName a.name b.name = false) {others : List Row}
    (hs : ∀ other ∈ others, other.cells.length = t.columns.length) {spec : ColumnSpec}
    (hspec : spec ∈ t.columns) (x : SqlValue) : t.repeats others spec x = false ↔
      ∀ other ∈ others, ∀ y, (spec, y) ∈ t.columns.zip other.cells →
        ¬ (spec.unique = true ∧ x ≠ .null ∧ x.order y = .eq) := by
  simp only [repeats, Bool.and_eq_false_iff, List.any_eq_false, decide_eq_false_iff_not, ne_eq,
    Decidable.not_not]
  constructor
  · rintro hclear other hother y hy ⟨hunique, hne, hsame⟩
    rcases hclear with (hfalse | hnull) | hnone
    · rw [hunique] at hfalse
      cases hfalse
    · exact hne hnull
    · have hfound := hnone other hother
      rw [lookup?_of_zip hd hy] at hfound
      exact hfound (decide_eq_true hsame)
  · intro hclear
    by_cases hunique : spec.unique = true
    · by_cases hne : x = .null
      · exact .inl (.inr hne)
      · refine .inr fun other hother hfound => ?_
        obtain ⟨y, hy⟩ : ∃ y, (spec, y) ∈ t.columns.zip other.cells := by
          obtain ⟨i, hi, rfl⟩ := List.getElem_of_mem hspec
          have hlen := hs other hother
          refine ⟨other.cells[i], ?_⟩
          rw [← List.getElem_zip (h := by rw [List.length_zip]; omega)]
          exact List.getElem_mem _
        rw [lookup?_of_zip hd hy] at hfound
        exact hclear other hother y hy ⟨hunique, hne, of_decide_eq_true hfound⟩
    · exact .inl (.inl (Bool.not_eq_true _ ▸ hunique))

theorem checkUnique_iff {t : Table}
    (hd : t.columns.Pairwise fun a b => sameName a.name b.name = false) {others : List Row}
    (hs : ∀ other ∈ others, other.cells.length = t.columns.length) {row : Row} :
    t.checkUnique others row = .ok () ↔
      ∀ other ∈ others, other.id ≠ row.id ∧ ¬ t.Clash row other := by
  constructor
  · intro h
    obtain ⟨hids, hrepeats⟩ := checkUnique_eq_ok h
    refine fun other hother => ⟨hids other hother, ?_⟩
    rintro ⟨spec, x, y, hx, hy, hclash⟩
    have hclear := hrepeats (spec, x) hx
    exact (repeats_eq_false hd hs (List.of_mem_zip hx).1 x).mp hclear other hother y hy hclash
  · intro h
    have hids : others.any (fun other => other.id = row.id) = false := by
      rw [List.any_eq_false]
      exact fun other hother hid => (h other hother).1 (of_decide_eq_true hid)
    rw [checkUnique, hids, if_neg Bool.false_ne_true]
    split
    next spec x hfound =>
      have hx : (spec, x) ∈ t.columns.zip row.cells :=
        List.mem_reverse.mp (List.mem_of_find?_eq_some hfound)
      have hclear := (repeats_eq_false hd hs (List.of_mem_zip hx).1 x).mpr
        fun other hother y hy hclash => (h other hother).2 ⟨spec, x, y, hx, hy, hclash⟩
      exact absurd (List.find?_some hfound) (Bool.not_eq_true _ ▸ hclear)
    next => rfl

/-! ## Checked tables -/

/-- All rows are full, and no two of them clash. -/
structure Checked (t : Table) : Prop where
  full : ∀ row ∈ t.rows, t.Full row
  apart : ∀ a ∈ t.rows, ∀ b ∈ t.rows, a.id ≠ b.id → ¬ t.Clash a b

/-- A row that was checked joins the rows that it was checked against. -/
theorem Checked.insertRow {t : Table} {others : List Row} {row : Row} (name : String)
    (sequence : Int64) (h : Checked ⟨t.name, t.columns, others, t.sequence⟩)
    (hfull : t.Full row) (hclear : ∀ other ∈ others, other.id ≠ row.id ∧ ¬ t.Clash row other) :
    Checked ⟨name, t.columns, insertRow row others, sequence⟩ := by
  constructor
  · intro other hother
    rcases mem_insertRow.mp hother with rfl | hother
    · exact hfull
    · exact h.full other hother
  · intro a ha b hb hne hclash
    rcases mem_insertRow.mp ha with rfl | hold
    · rcases mem_insertRow.mp hb with rfl | hother
      · exact hne rfl
      · exact (hclear b hother).2 hclash
    · rcases mem_insertRow.mp hb with rfl | hother
      · exact (hclear a hold).2 (Clash.symm hclash)
      · exact h.apart a hold b hother hne hclash

/-- Some of the rows of a checked table. -/
theorem Checked.filter {t : Table} (h : t.Checked) (p : Row → Bool) :
    Checked ⟨t.name, t.columns, t.rows.filter p, t.sequence⟩ :=
  ⟨fun row hrow => h.full row (List.mem_filter.mp hrow).1, fun a ha b hb =>
    h.apart a (List.mem_filter.mp ha).1 b (List.mem_filter.mp hb).1⟩

end Table

namespace Model.OwnTable

variable {m : Model} {t : Table}

theorem checked (h : m.OwnTable t) : t.Checked := by
  induction h with
  | created => exact ⟨fun _ h => absurd h List.not_mem_nil, fun _ h => absurd h List.not_mem_nil⟩
  | inserted ht h ih =>
    obtain ⟨hnull, hunique⟩ := Table.insert_checked h
    obtain ⟨_, rfl⟩ := Table.insert_eq_ok h
    have hclear := (Table.checkUnique_iff ht.distinct.2 ht.shaped).mp hunique
    exact ih.insertRow _ _ (Table.checkNotNull_iff.mp hnull) hclear
  | @updated t t' cells condition n ht h ih =>
    -- The tables between two steps are not among the stages of `OwnTable`.
    have hrows : t'.columns = t.columns ∧ t'.Shaped ∧ t'.Checked := by
      refine Table.update_induction
        (P := fun u => u.columns = t.columns ∧ u.Shaped ∧ u.Checked) h ⟨rfl, ht.shaped, ih⟩ ?_
      rintro row hrow u u' ⟨hcolumns, hshaped, hchecked⟩ hstep
      obtain ⟨changed, hassign, hnull, hunique, rfl⟩ := Table.updateRow_checked hstep
      have hdistinct : u.columns.Pairwise fun a b => sameName a.name b.name = false :=
        hcolumns ▸ ht.distinct.2
      have hothers : ∀ other ∈ u.rows.filter (·.id ≠ row.id),
          other.cells.length = u.columns.length := fun other hother =>
        hshaped other (List.mem_filter.mp hother).1
      have hclear := (Table.checkUnique_iff hdistinct hothers).mp hunique
      refine ⟨hcolumns, fun other hother => ?_, ?_⟩
      · rcases Table.mem_insertRow.mp hother with rfl | hother
        · have hlen : row.cells.length = t.columns.length :=
            ht.shaped row (List.mem_filter.mp hrow).1
          rw [Table.assign_length hassign, hlen, hcolumns, Nat.min_self]
        · exact hothers other hother
      · exact (hchecked.filter _).insertRow _ _ (Table.checkNotNull_iff.mp hnull) hclear
    exact hrows.2.2
  | deleted condition _ ih => exact ih.filter _

/-- A row passes the checks against the other rows again. -/
theorem check_row (h : m.OwnTable t) {row : Row} (hrow : row ∈ t.rows) :
    t.checkNotNull row = .ok () ∧
      t.checkUnique (t.rows.filter (·.id ≠ row.id)) row = .ok () := by
  have hothers : ∀ other ∈ t.rows.filter (·.id ≠ row.id), other.cells.length = t.columns.length :=
    fun other hother => h.shaped other (List.mem_filter.mp hother).1
  refine ⟨Table.checkNotNull_iff.mpr (h.checked.full row hrow),
    (Table.checkUnique_iff h.distinct.2 hothers).mpr fun other hother => ?_⟩
  obtain ⟨hmem, hid⟩ := List.mem_filter.mp hother
  have hne : other.id ≠ row.id := of_decide_eq_true hid
  exact ⟨hne, h.checked.apart row hrow other hmem (Ne.symm hne)⟩

/-- Giving rows the cells that they have already changes nothing, and is not refused. -/
theorem update_unchanged (h : m.OwnTable t) {cells : List (String × SqlValue)}
    {condition : Option Clause} (hno : assigned? cells.reverse "_id" = none)
    (hcolumns : ∀ given ∈ cells, t.hasColumn given.1 = true)
    (hsame : ∀ row ∈ t.matching condition, t.changed cells row = row) :
    t.update cells condition = .ok (t, (t.matching condition).length) := by
  have hstep : ∀ row ∈ t.matching condition, Table.updateRow cells t row = .ok t := by
    intro row hmatching
    have hrow := (List.mem_filter.mp hmatching).1
    obtain ⟨hnull, hunique⟩ := h.check_row hrow
    have hplace : Table.insertRow row (t.rows.filter (·.id ≠ row.id)) = t.rows := by
      rw [Table.insertRow_replace h.sorted ⟨row, hrow, rfl⟩]
      conv => rhs; rw [← List.map_id t.rows]
      refine List.map_congr_left fun other hother => ?_
      split
      next hid => exact h.sorted.eq_of_id hrow hother hid.symm
      next => rfl
    rw [Table.updateRow, Table.assign_of_no_id hno, hsame row hmatching, ok_bind, hnull, ok_bind,
      hunique, ok_bind, hplace]
  have hfold : (t.matching condition).foldlM (Table.updateRow cells) t = .ok t := by
    generalize t.matching condition = rows at hstep
    induction rows with
    | nil => rfl
    | cons row rest ih =>
      rw [List.foldlM_cons, hstep row List.mem_cons_self, ok_bind]
      exact ih fun other hother => hstep other (List.mem_cons_of_mem _ hother)
  rw [Table.update, Table.find?_unknown_eq_none hcolumns]
  simp only [hfold, ok_bind]

end Model.OwnTable

end RecordStore
