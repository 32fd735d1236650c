import RecordStore.Proofs.Operation.Plans
import RecordStore.Proofs.Model.Members
import RecordStore.Proofs.Database.Unique

/-!
# Rows that are removed and changed one by one

The condition on a key singles out a row, which is removed or changed where it stands. If several
rows are changed in turn, each of them waits in the table as it stood at first. A row that is changed
is checked against the others, some of which are changed already and some of which wait. All changes
are accepted exactly if the rows that are there in the end stand the checks, so that the order in
which the rows are changed does not matter.
-/

namespace RecordStore

namespace Table

variable {t t' : Table}

/-- The table without some of its rows. -/
def without (t : Table) (rows : List Row) : Table := { t with rows := t.rows.filter (· ∉ rows) }

theorem without_nil (t : Table) : t.without [] = t := by
  have hrows : t.rows.filter (fun row => row ∉ ([] : List Row)) = t.rows :=
    List.filter_eq_self.mpr fun row _ => by simp
  rw [without, hrows]

theorem without_cons (t : Table) (row : Row) (rest : List Row) :
    (t.without [row]).without rest = t.without (row :: rest) := by
  simp only [without, List.filter_filter]
  refine congrArg (fun rows => { t with rows := rows }) (List.filter_congr fun other _ => ?_)
  simp [Bool.and_comm]

/-- A removal removes the rows that meet its condition. -/
theorem delete_eq_without (t : Table) (condition : Option Clause) :
    (t.delete condition).1 = t.without (t.matching condition) := by
  refine congrArg (fun rows => { t with rows := rows }) (List.filter_congr fun row hrow => ?_)
  simp [matching, hrow]

theorem without_perm (t : Table) {rows rows' : List Row} (h : rows.Perm rows') :
    t.without rows = t.without rows' := by
  simp only [without, h.mem_iff]

theorem Sorted.without (hs : t.Sorted) (rows : List Row) : (t.without rows).Sorted := hs.filter _

/-- A change of known columns goes through the rows that meet its condition. -/
theorem update_eq_ok_iff {cells : List (String × SqlValue)} {condition : Option Clause} {n : Nat}
    (hcolumns : ∀ given ∈ cells, t.hasColumn given.1 = true) :
    t.update cells condition = .ok (t', n) ↔
      (t.matching condition).foldlM (updateRow cells) t = .ok t' ∧
        n = (t.matching condition).length := by
  simp only [update, find?_unknown_eq_none hcolumns, bind_eq_ok, Except.ok.injEq, Prod.mk.injEq]
  constructor
  · rintro ⟨_, hfold, rfl, rfl⟩
    exact ⟨hfold, rfl⟩
  · rintro ⟨hfold, rfl⟩
    exact ⟨t', hfold, rfl, rfl⟩

/-- The table with some of its rows changed where they stand. -/
def withChanged (t : Table) (cells : List (String × SqlValue)) (rows : List Row) : Table :=
  t.mapRows fun row => if row ∈ rows then t.changed cells row else row

/-- The cells of a changed row are the cells that are set, and those of the row elsewhere. -/
theorem mem_zip_changed {cells : List (String × SqlValue)} {row : Row} {spec : ColumnSpec}
    {x : SqlValue} : (spec, x) ∈ t.columns.zip (t.changed cells row).cells ↔
      ∃ old, (spec, old) ∈ t.columns.zip row.cells ∧ x = match assigned? cells.reverse spec.name with
        | some value => value.stored spec.type
        | none => old := by
  simp only [changed]
  generalize t.columns = specs
  generalize row.cells = olds
  induction specs generalizing olds with
  | nil => simp
  | cons first rest ih =>
    cases olds with
    | nil => simp
    | cons old olds =>
      simp only [List.zip_cons_cons, List.map_cons, List.mem_cons, Prod.mk.injEq, ih]
      constructor
      · rintro (⟨rfl, rfl⟩ | ⟨other, hother, rfl⟩)
        · exact ⟨old, .inl ⟨rfl, rfl⟩, rfl⟩
        · exact ⟨other, .inr hother, rfl⟩
      · rintro ⟨other, ⟨rfl, rfl⟩ | hother, rfl⟩
        · exact .inl ⟨rfl, rfl⟩
        · exact .inr ⟨other, hother, rfl⟩

/-- A changed row that clashes with another one clashes by a cell that it had before, or by one that
the other row gets as well if it is changed. -/
theorem Clash.of_changed {cells : List (String × SqlValue)} {a b : Row}
    (h : t.Clash (t.changed cells a) b) :
    t.Clash a b ∨ t.Clash (t.changed cells a) (t.changed cells b) := by
  obtain ⟨spec, x, y, hx, hy, hunique, hne, hsame⟩ := h
  obtain ⟨old, hold, hcell⟩ := mem_zip_changed.mp hx
  cases hassigned : assigned? cells.reverse spec.name with
  | none =>
    rw [hassigned] at hcell
    obtain rfl : x = old := hcell
    exact .inl ⟨spec, x, y, hold, hy, hunique, hne, hsame⟩
  | some value =>
    refine .inr ⟨spec, x, x, hx, mem_zip_changed.mpr ⟨y, hy, ?_⟩, hunique, hne, x.order_self⟩
    rw [hcell, hassigned]

theorem foldlM_updateRow_name {cells : List (String × SqlValue)} {pending : List Row}
    (h : pending.foldlM (updateRow cells) t = .ok t') : t'.name = t.name := by
  apply foldlM_induction (P := fun u => u.name = t.name) h rfl
  intro row _ u u' hu hstep
  obtain ⟨_, _, rfl⟩ := updateRow_eq_ok hstep
  exact hu

end Table

namespace Model

variable {m : Model} {t t' : Table} {row : Row} {changes : Record} {cells : List (String × SqlValue)}

/-- The condition on the key of a row singles it out. -/
theorem matching_byId (hs : t.Sorted) {row : Row} (hrow : row ∈ t.rows) :
    t.matching (m.selectById row.id).condition = [row] :=
  hs.filter_eq_singleton hrow (selectById_selects_iff.mpr rfl)
    fun _ _ hselected => selectById_selects_iff.mp hselected

/-- The condition on a key that no row has singles out none. -/
theorem matching_of_absent {id : Int64} (h : ∀ row ∈ t.rows, row.id ≠ id) :
    t.matching (m.selectById id).condition = [] :=
  List.filter_eq_nil_iff.mpr fun row hrow hselected => h row hrow (selectById_selects_iff.mp hselected)

namespace OwnTable

variable (hown : m.OwnTable t) (hc : m.encode false changes = .ok cells)
include hown hc

/-- A change of the row with a given key changes this row where it stands. -/
theorem update_byId_rows (hrow : row ∈ t.rows) {n : Nat}
    (h : t.update cells (m.selectById row.id).condition = .ok (t', n)) :
    t'.rows = t.rows.map fun other => if other = row then t.changed cells row else other := by
  obtain ⟨_, rfl⟩ := Table.update_of_no_id (hown.assigned?_id hc) hown.sorted h
  apply List.map_congr_left
  intro other hother
  have hselected : Clause.selects (m.selectById row.id).condition t other = true ↔ other = row :=
    selectById_selects_iff.trans ⟨fun hid => hown.sorted.eq_of_id hother hrow hid, congrArg Row.id⟩
  by_cases heq : other = row
  · rw [if_pos (hselected.mpr heq), if_pos heq, heq]
  · rw [if_neg (mt hselected.mp heq), if_neg heq]

/-- The change of a row by its key goes through this row alone. -/
theorem update_byId_eq_ok_iff (hrow : row ∈ t.rows) {n : Nat} :
    t.update cells (m.selectById row.id).condition = .ok (t', n) ↔
      Table.updateRow cells t row = .ok t' ∧ n = 1 := by
  rw [Table.update_eq_ok_iff (hown.hasColumn_of_encode hc), matching_byId hown.sorted hrow,
    List.foldlM_cons]
  simp

/-- A table whose row was changed is a table of the model, with the rows that still wait. -/
theorem updateRow (hrow : row ∈ t.rows) (h : Table.updateRow cells t row = .ok t') :
    m.OwnTable t' ∧ t'.name = t.name ∧ ∀ other ∈ t.rows, other.id ≠ row.id → other ∈ t'.rows := by
  have hupdated : t.update cells (m.selectById row.id).condition = .ok (t', 1) :=
    (update_byId_eq_ok_iff hown hc hrow).mpr ⟨h, rfl⟩
  refine ⟨.updated hown hupdated, (Table.update_name hupdated).1, fun other hother hne => ?_⟩
  rw [hown.update_byId_rows hc hrow hupdated]
  exact List.mem_map.mpr ⟨other, hother, if_neg fun heq => hne (congrArg Row.id heq)⟩

/-- The step of a change succeeds if the changed row stands the checks against the other rows. -/
theorem updateRow_of_checks (hfull : t.Full (t.changed cells row))
    (hclear : ∀ other ∈ t.rows, other.id ≠ row.id → ¬ t.Clash (t.changed cells row) other) :
    ∃ t', Table.updateRow cells t row = .ok t' := by
  have hothers : ∀ other ∈ t.rows.filter (·.id ≠ row.id), other.cells.length = t.columns.length :=
    fun other hother => hown.shaped other (List.mem_filter.mp hother).1
  have hunique : t.checkUnique (t.rows.filter (·.id ≠ row.id)) (t.changed cells row) = .ok () := by
    refine (Table.checkUnique_iff hown.distinct.2 hothers).mpr fun other hother => ?_
    obtain ⟨hmem, hid⟩ := List.mem_filter.mp hother
    have hne : other.id ≠ row.id := of_decide_eq_true hid
    exact ⟨hne, hclear other hmem hne⟩
  rw [Table.updateRow, Table.assign_of_no_id (hown.assigned?_id hc), ok_bind,
    Table.checkNotNull_iff.mpr hfull, ok_bind, hunique, ok_bind]
  exact ⟨_, rfl⟩

/-- After the first of several rows was changed, the others are still to be changed. -/
theorem withChanged_cons (hrow : row ∈ t.rows) (hstep : Table.updateRow cells t row = .ok t')
    {rest : List Row} (hrest : ∀ other ∈ rest, row.id ≠ other.id) :
    t'.withChanged cells rest = t.withChanged cells (row :: rest) := by
  rw [Table.updateRow_of_no_id (hown.assigned?_id hc) hown.sorted ⟨row, hrow, rfl⟩ hstep]
  refine (Table.mapRows_mapRows t _ _).trans (Table.mapRows_congr fun other hother => ?_)
  by_cases hid : other.id = row.id
  · have hnot : t.changed cells row ∉ rest := fun hmem => hrest _ hmem rfl
    rw [if_pos hid, if_neg hnot, hown.sorted.eq_of_id hother hrow hid, if_pos List.mem_cons_self]
  · have hmem : other ∈ row :: rest ↔ other ∈ rest := by
      rw [List.mem_cons, or_iff_right fun heq => hid (congrArg Row.id heq)]
    simp only [if_neg hid, hmem]
    rfl

/-- Several rows can be changed one after another exactly if all rows stand the checks in the end, and
then the order in which they are changed does not matter. The induction is on the rows that are still
to be changed. A row that is changed clashes with one that waits only if the two clash in the end. -/
theorem foldlM_updateRow_iff {pending : List Row} (hd : pending.Pairwise fun a b => a.id ≠ b.id)
    (hp : ∀ row ∈ pending, row ∈ t.rows) : pending.foldlM (Table.updateRow cells) t = .ok t' ↔
      t' = t.withChanged cells pending ∧ (t.withChanged cells pending).Checked := by
  induction pending generalizing t with
  | nil =>
    have hsame : t.withChanged cells [] = t := t.mapRows_id
    rw [hsame, and_iff_left hown.checked]
    exact ⟨fun h => (Except.ok.inj h).symm, fun h => congrArg Except.ok h.symm⟩
  | cons row rest ih =>
    obtain ⟨hhead, htail⟩ := List.pairwise_cons.mp hd
    have hrow := hp row List.mem_cons_self
    have hstep : ∀ {t₁}, Table.updateRow cells t row = .ok t₁ →
        (rest.foldlM (Table.updateRow cells) t₁ = .ok t' ↔
          t' = t.withChanged cells (row :: rest) ∧
            (t.withChanged cells (row :: rest)).Checked) := by
      intro t₁ h₁
      obtain ⟨hown₁, _, hkept⟩ := hown.updateRow hc hrow h₁
      have hwaits : ∀ other ∈ rest, other ∈ t₁.rows := fun other hother =>
        hkept other (hp other (List.mem_cons_of_mem _ hother)) (Ne.symm (hhead other hother))
      rw [ih hown₁ htail hwaits, hown.withChanged_cons hc hrow h₁ hhead]
    rw [List.foldlM_cons, bind_eq_ok]
    constructor
    · rintro ⟨t₁, h₁, hfold⟩
      exact (hstep h₁).mp hfold
    · rintro ⟨rfl, hchecked⟩
      have hin {other : Row} (hother : other ∈ t.rows) : (if other ∈ row :: rest then
          t.changed cells other else other) ∈ (t.withChanged cells (row :: rest)).rows :=
        List.mem_map_of_mem hother
      have hfirst := hin hrow
      rw [if_pos List.mem_cons_self] at hfirst
      obtain ⟨t₁, h₁⟩ := hown.updateRow_of_checks hc (hchecked.full _ hfirst)
        fun other hother hne hclash => by
          have hlast := hin hother
          by_cases hpending : other ∈ row :: rest
          · rw [if_pos hpending] at hlast
            rcases Table.Clash.of_changed hclash with hold | hnew
            · exact hown.checked.apart row hrow other hother (Ne.symm hne) hold
            · exact hchecked.apart _ hfirst _ hlast (Ne.symm hne) hnew
          · rw [if_neg hpending] at hlast
            exact hchecked.apart _ hfirst _ hlast (Ne.symm hne) hclash
      exact ⟨t₁, h₁, (hstep h₁).mpr ⟨rfl, hchecked⟩⟩

/-- Rows are changed in any order alike. -/
theorem foldlM_updateRow_perm {pending pending' : List Row} (hperm : pending'.Perm pending)
    (hd : pending.Pairwise fun a b => a.id ≠ b.id) (hp : ∀ row ∈ pending, row ∈ t.rows) :
    pending'.foldlM (Table.updateRow cells) t = .ok t' ↔
      pending.foldlM (Table.updateRow cells) t = .ok t' := by
  have hd' : pending'.Pairwise fun a b => a.id ≠ b.id := (hperm.pairwise_iff fun h => h.symm).mpr hd
  have hsame : t.withChanged cells pending' = t.withChanged cells pending :=
    Table.mapRows_congr fun row _ => by simp only [hperm.mem_iff]
  rw [hown.foldlM_updateRow_iff hc hd' fun row hrow => hp row (hperm.mem_iff.mp hrow),
    hown.foldlM_updateRow_iff hc hd hp, hsame]

end OwnTable

end Model

end RecordStore
