import RecordStore.Proofs.Query.Meaning

/-!
# Keys of rows

The rows of a table stand in ascending order of their keys, so that no two of them have the same
key. A new row goes to one place between the others. A change that sets no key changes the rows that
meet its condition where they stand, all by the same rule, although it is made row by row; the other
rows stay as they are.
-/

namespace RecordStore

namespace Table

/-! ## Rows in order -/

/-- The rows stand in ascending order of their keys. -/
def Sorted (t : Table) : Prop := t.rows.Pairwise fun a b => a.id < b.id

theorem Sorted.distinct {t : Table} (h : t.Sorted) : t.rows.Pairwise fun a b => a.id ≠ b.id :=
  h.imp fun {a b} hlt heq => by
    rw [heq] at hlt
    exact Int64.lt_irrefl hlt

/-- In a sorted table a key belongs to one row. -/
theorem Sorted.eq_of_id {t : Table} (h : t.Sorted) {a b : Row} (ha : a ∈ t.rows) (hb : b ∈ t.rows)
    (hid : a.id = b.id) : a = b := by
  have hd : t.rows.Pairwise fun a b => a.id ≠ b.id := h.distinct
  generalize t.rows = rows at hd ha hb
  induction rows with
  | nil => exact absurd ha List.not_mem_nil
  | cons first rest ih =>
    obtain ⟨hfirst, hrest⟩ := List.pairwise_cons.mp hd
    rcases List.mem_cons.mp ha with hfa | hra
    · rcases List.mem_cons.mp hb with hfb | hrb
      · rw [hfa, hfb]
      · exact absurd hid (hfa ▸ hfirst b hrb)
    · rcases List.mem_cons.mp hb with hfb | hrb
      · exact absurd hid.symm (hfb ▸ hfirst a hra)
      · exact ih hrest hra hrb

/-- In a sorted table a row is found alone by what it shares with no row of another key. -/
theorem Sorted.filter_eq_singleton {t : Table} (h : t.Sorted) {row : Row} (hrow : row ∈ t.rows)
    {p : Row → Bool} (hself : p row = true)
    (hother : ∀ other ∈ t.rows, p other = true → other.id = row.id) : t.rows.filter p = [row] := by
  have hall : ∀ other ∈ t.rows.filter p, other = row := by
    intro other hfound
    obtain ⟨hin, hp⟩ := List.mem_filter.mp hfound
    exact h.eq_of_id hin hrow (hother other hin hp)
  have hmem : row ∈ t.rows.filter p := List.mem_filter.mpr ⟨hrow, hself⟩
  have hd : (t.rows.filter p).Pairwise fun a b => a.id ≠ b.id := h.distinct.filter _
  match hrows : t.rows.filter p with
  | [] => exact absurd (hrows ▸ hmem) List.not_mem_nil
  | [other] => rw [hall other (hrows ▸ List.mem_cons_self)]
  | a :: b :: rest =>
    rw [hrows] at hall hd
    have hne := (List.pairwise_cons.mp hd).1 b List.mem_cons_self
    have hab : a = b := (hall a (by simp)).trans (hall b (by simp)).symm
    exact absurd (congrArg Row.id hab) hne

/-- A new row goes to one place between the others. -/
theorem insertRow_split (row : Row) (rows : List Row) :
    ∃ before after, rows = before ++ after ∧ insertRow row rows = before ++ row :: after := by
  induction rows with
  | nil => exact ⟨[], [], rfl, rfl⟩
  | cons first rest ih =>
    unfold insertRow
    split
    · exact ⟨[], first :: rest, rfl, rfl⟩
    · obtain ⟨before, after, hrest, hinsert⟩ := ih
      refine ⟨first :: before, after, ?_, ?_⟩
      · rw [hrest, List.cons_append]
      · rw [hinsert, List.cons_append]

theorem insertRow_perm (row : Row) (rows : List Row) : (insertRow row rows).Perm (row :: rows) := by
  obtain ⟨before, after, hold, hnew⟩ := insertRow_split row rows
  rw [hnew, hold]
  exact List.perm_middle

theorem insertRow_sorted {row : Row} {rows : List Row} (hs : rows.Pairwise fun a b => a.id < b.id)
    (hn : ∀ other ∈ rows, other.id ≠ row.id) :
    (insertRow row rows).Pairwise fun a b => a.id < b.id := by
  induction rows with
  | nil => exact List.pairwise_singleton _ _
  | cons first rest ih =>
    obtain ⟨hfirst, hrest⟩ := List.pairwise_cons.mp hs
    unfold insertRow
    split
    next hlt =>
      refine List.pairwise_cons.mpr ⟨fun other hother => ?_, hs⟩
      rcases List.mem_cons.mp hother with rfl | hother
      · exact hlt
      · exact Int64.lt_trans hlt (hfirst other hother)
    next hle =>
      have hlt : first.id < row.id :=
        Int64.lt_of_le_of_ne (Int64.not_lt.mp hle) (hn first List.mem_cons_self)
      refine List.pairwise_cons.mpr ⟨fun other hother => ?_, ?_⟩
      · rcases mem_insertRow.mp hother with rfl | hother
        · exact hlt
        · exact hfirst other hother
      · exact ih hrest fun other hother => hn other (List.mem_cons_of_mem _ hother)

theorem insertRow_first {row : Row} {rows : List Row} (h : ∀ other ∈ rows, row.id < other.id) :
    insertRow row rows = row :: rows := by
  cases rows with
  | nil => rfl
  | cons first rest => rw [insertRow, if_pos (h first List.mem_cons_self)]

/-- A row that is put back in place of the one with its key stands where that one stood. -/
theorem insertRow_replace {row : Row} {rows : List Row} (hs : rows.Pairwise fun a b => a.id < b.id)
    (hmem : ∃ old ∈ rows, old.id = row.id) :
    insertRow row (rows.filter (·.id ≠ row.id)) =
      rows.map fun r => if r.id = row.id then row else r := by
  induction rows with
  | nil =>
    obtain ⟨_, hold, _⟩ := hmem
    exact absurd hold List.not_mem_nil
  | cons first rest ih =>
    obtain ⟨hfirst, hrest⟩ := List.pairwise_cons.mp hs
    by_cases hid : first.id = row.id
    · have hlt : ∀ other ∈ rest, row.id < other.id := fun other ho => hid ▸ hfirst other ho
      have hne : ∀ other ∈ rest, other.id ≠ row.id := fun other ho heq =>
        Int64.lt_irrefl (heq ▸ hlt other ho)
      have hkept : rest.filter (·.id ≠ row.id) = rest :=
        List.filter_eq_self.mpr fun other ho => decide_eq_true (hne other ho)
      have hsame : rest.map (fun r => if r.id = row.id then row else r) = rest.map id :=
        List.map_congr_left fun other ho => if_neg (hne other ho)
      rw [List.filter_cons_of_neg (by simpa using hid), hkept, insertRow_first hlt, List.map_cons,
        if_pos hid, hsame, List.map_id]
    · obtain ⟨old, hold, holdid⟩ := hmem
      have hin : old ∈ rest := by
        rcases List.mem_cons.mp hold with rfl | hin
        · exact absurd holdid hid
        · exact hin
      have hnot : ¬ row.id < first.id := fun hlt =>
        Int64.lt_irrefl (Int64.lt_trans (holdid ▸ hfirst old hin) hlt)
      rw [List.filter_cons_of_pos (by simpa using hid), insertRow, if_neg hnot,
        ih hrest ⟨old, hin, holdid⟩, List.map_cons, if_neg hid]

/-! ## What statements check -/

theorem checkUnique_eq_ok {t : Table} {others : List Row} {row : Row}
    (h : t.checkUnique others row = .ok ()) : (∀ other ∈ others, other.id ≠ row.id) ∧
      ∀ entry ∈ t.columns.zip row.cells, t.repeats others entry.1 entry.2 = false := by
  unfold checkUnique at h
  split at h
  · cases h
  next hids =>
    split at h
    · cases h
    next hnone =>
      simp only [List.any_eq_true, decide_eq_true_eq, not_exists, not_and] at hids
      refine ⟨hids, fun entry hentry => ?_⟩
      simpa using List.find?_eq_none.mp hnone entry (List.mem_reverse.mpr hentry)

theorem checkNotNull_eq_ok {t : Table} {row : Row} (h : t.checkNotNull row = .ok ()) :
    ∀ entry ∈ t.columns.zip row.cells, entry.1.notNull = true → entry.2 ≠ .null := by
  unfold checkNotNull at h
  split at h
  · cases h
  next hnone =>
    intro entry hentry hnotNull hcell
    have hfound := List.find?_eq_none.mp hnone entry hentry
    simp [hnotNull, hcell] at hfound

/-- A row that is added was checked. -/
theorem insert_checked {t t' : Table} {name : String} {cells : List (String × SqlValue)}
    {id : Int64} (h : t.insert name cells = .ok (t', id)) :
    t.checkNotNull ⟨id, t.newCells cells⟩ = .ok () ∧
      t.checkUnique t.rows ⟨id, t.newCells cells⟩ = .ok () := by
  unfold insert at h
  split at h
  · cases h
  · simp only [bind_eq_ok, Except.ok.injEq, Prod.mk.injEq] at h
    obtain ⟨_, _, ⟨⟩, hnull, ⟨⟩, hunique, _, rfl⟩ := h
    exact ⟨hnull, hunique⟩

/-- A row that is changed was checked. -/
theorem updateRow_checked {t t' : Table} {cells : List (String × SqlValue)} {row : Row}
    (h : updateRow cells t row = .ok t') : ∃ changed, t.assign cells row = .ok changed ∧
      t.checkNotNull changed = .ok () ∧
      t.checkUnique (t.rows.filter (·.id ≠ row.id)) changed = .ok () ∧
      t' = { t with rows := insertRow changed (t.rows.filter (·.id ≠ row.id)) } := by
  simp only [updateRow, bind_eq_ok, Except.ok.injEq] at h
  obtain ⟨changed, hassign, ⟨⟩, hnull, ⟨⟩, hunique, rfl⟩ := h
  exact ⟨changed, hassign, hnull, hunique, rfl⟩

theorem insert_sorted {t t' : Table} {name : String} {cells : List (String × SqlValue)} {id : Int64}
    (hs : t.Sorted) (h : t.insert name cells = .ok (t', id)) : t'.Sorted := by
  obtain ⟨_, hunique⟩ := insert_checked h
  obtain ⟨_, rfl⟩ := insert_eq_ok h
  exact insertRow_sorted hs (checkUnique_eq_ok hunique).1

theorem updateRow_sorted {t t' : Table} {cells : List (String × SqlValue)} {row : Row}
    (hs : t.Sorted) (h : updateRow cells t row = .ok t') : t'.Sorted := by
  obtain ⟨changed, _, _, hunique, rfl⟩ := updateRow_checked h
  exact insertRow_sorted (hs.filter _) (checkUnique_eq_ok hunique).1

theorem update_sorted {t t' : Table} {cells : List (String × SqlValue)} {condition : Option Clause}
    {n : Nat} (hs : t.Sorted) (h : t.update cells condition = .ok (t', n)) : t'.Sorted :=
  update_induction h hs fun _ _ _ _ hu hstep => updateRow_sorted hu hstep

/-! ## Changes that set no key -/

/-- The table with each of its rows changed where it stands. -/
def mapRows (t : Table) (f : Row → Row) : Table := { t with rows := t.rows.map f }

theorem mapRows_congr {t : Table} {f g : Row → Row} (h : ∀ row ∈ t.rows, f row = g row) :
    t.mapRows f = t.mapRows g := by
  rw [mapRows, List.map_congr_left h, mapRows]

theorem mapRows_id (t : Table) : (t.mapRows fun row => row) = t := by
  rw [mapRows, List.map_id']

theorem mapRows_mapRows (t : Table) (f g : Row → Row) :
    (t.mapRows f).mapRows g = t.mapRows fun row => g (f row) := by
  simp only [mapRows, List.map_map]
  rfl

/-- The row with the given cells set, and its key kept. -/
def changed (t : Table) (cells : List (String × SqlValue)) (row : Row) : Row :=
  ⟨row.id, (t.columns.zip row.cells).map fun (spec, cell) =>
    match assigned? cells.reverse spec.name with
    | some value => value.stored spec.type
    | none => cell⟩

theorem assign_of_no_id {t : Table} {cells : List (String × SqlValue)}
    (hno : assigned? cells.reverse "_id" = none) (row : Row) :
    t.assign cells row = .ok (t.changed cells row) := by
  simp only [assign, hno]
  rfl

theorem updateRow_of_no_id {t t' : Table} {cells : List (String × SqlValue)}
    (hno : assigned? cells.reverse "_id" = none) (hs : t.Sorted) {row : Row}
    (hrow : ∃ old ∈ t.rows, old.id = row.id) (h : updateRow cells t row = .ok t') :
    t' = t.mapRows fun r => if r.id = row.id then t.changed cells row else r := by
  obtain ⟨changed, hassign, rfl⟩ := updateRow_eq_ok h
  obtain rfl := Except.ok.inj ((assign_of_no_id hno row).symm.trans hassign)
  have hid : (t.changed cells row).id = row.id := rfl
  have hreplace : insertRow (t.changed cells row) (t.rows.filter (·.id ≠ row.id)) =
      t.rows.map fun r => if r.id = row.id then t.changed cells row else r :=
    hid ▸ insertRow_replace hs (hid ▸ hrow)
  rw [hreplace, mapRows]

/-- The changes of several rows, one after another. The induction is on the rows that are still to be
changed; the rows changed before keep their keys, so that they are not changed again. -/
theorem foldlM_updateRow {t t' : Table} {cells : List (String × SqlValue)}
    (hno : assigned? cells.reverse "_id" = none) {pending : List Row}
    (hd : pending.Pairwise fun a b => a.id ≠ b.id)
    (hp : ∀ row ∈ pending, ∃ old ∈ t.rows, old.id = row.id) (hs : t.Sorted)
    (h : pending.foldlM (updateRow cells) t = .ok t') :
    t' = t.mapRows fun r => ((pending.find? (·.id = r.id)).map (t.changed cells)).getD r := by
  induction pending generalizing t with
  | nil =>
    simp only [List.foldlM_nil, pure, Except.pure, Except.ok.injEq] at h
    subst h
    simp only [List.find?_nil, Option.map_none, Option.getD_none, mapRows_id]
  | cons row rest ih =>
    simp only [List.foldlM_cons, bind_eq_ok] at h
    obtain ⟨u, hstep, hrest⟩ := h
    obtain ⟨hhead, htail⟩ := List.pairwise_cons.mp hd
    have hu := updateRow_of_no_id hno hs (hp row List.mem_cons_self) hstep
    have hus : u.Sorted := updateRow_sorted hs hstep
    have hup : ∀ other ∈ rest, ∃ old ∈ u.rows, old.id = other.id := by
      intro other hother
      obtain ⟨old, hold, hid⟩ := hp other (List.mem_cons_of_mem _ hother)
      have hkept : old.id ≠ row.id := fun heq => hhead other hother (heq.symm.trans hid)
      refine ⟨old, ?_, hid⟩
      rw [hu]
      exact List.mem_map.mpr ⟨old, hold, if_neg hkept⟩
    rw [ih htail hup hus hrest, hu, mapRows_mapRows]
    apply mapRows_congr
    intro r _
    by_cases hid : r.id = row.id
    · have hnone : rest.find? (·.id = row.id) = none := by
        rw [List.find?_eq_none]
        intro other hother heq
        exact hhead other hother (of_decide_eq_true heq).symm
      have hfirst : (row :: rest).find? (·.id = r.id) = some row :=
        List.find?_cons_of_pos (by simp [hid])
      simp only [if_pos hid, hfirst, Option.map_some, Option.getD_some]
      rw [show (t.changed cells row).id = row.id from rfl, hnone]
      rfl
    · have hskip : (row :: rest).find? (·.id = r.id) = rest.find? (·.id = r.id) :=
        List.find?_cons_of_neg (by simpa using fun heq : row.id = r.id => hid heq.symm)
      simp only [if_neg hid, hskip]
      rfl

/-- A change that sets no key changes the rows that meet its condition, and only them. -/
theorem update_of_no_id {t t' : Table} {cells : List (String × SqlValue)}
    {condition : Option Clause} {n : Nat} (hno : assigned? cells.reverse "_id" = none)
    (hs : t.Sorted) (h : t.update cells condition = .ok (t', n)) :
    n = (t.matching condition).length ∧ t' = t.mapRows fun row =>
      if Clause.selects condition t row then t.changed cells row else row := by
  unfold update at h
  split at h
  · cases h
  · simp only [bind_eq_ok, Except.ok.injEq, Prod.mk.injEq] at h
    obtain ⟨u, hfold, rfl, rfl⟩ := h
    have hd : (t.matching condition).Pairwise fun a b => a.id ≠ b.id := hs.distinct.filter _
    have hp : ∀ row ∈ t.matching condition, ∃ old ∈ t.rows, old.id = row.id :=
      fun row hrow => ⟨row, (List.mem_filter.mp hrow).1, rfl⟩
    refine ⟨rfl, ?_⟩
    rw [foldlM_updateRow hno hd hp hs hfold]
    apply mapRows_congr
    intro row hrow
    by_cases hsel : Clause.selects condition t row
    · have hmem : row ∈ t.matching condition := List.mem_filter.mpr ⟨hrow, hsel⟩
      obtain ⟨found, hfound⟩ : ∃ found, (t.matching condition).find? (·.id = row.id) = some found := by
        rw [← Option.isSome_iff_exists, List.find?_isSome]
        exact ⟨row, hmem, decide_eq_true rfl⟩
      have hid : found.id = row.id := by simpa using List.find?_some hfound
      have hin : found ∈ t.rows := (List.mem_filter.mp (List.mem_of_find?_eq_some hfound)).1
      obtain rfl := hs.eq_of_id hin hrow hid
      rw [hfound, if_pos hsel]
      rfl
    · have hnone : (t.matching condition).find? (·.id = row.id) = none := by
        rw [List.find?_eq_none]
        intro other hother heq
        obtain ⟨hin, hother⟩ := List.mem_filter.mp hother
        exact hsel (hs.eq_of_id hin hrow (of_decide_eq_true heq) ▸ hother)
      rw [hnone, if_neg hsel]
      rfl

end Table

namespace Model.OwnTable

variable {m : Model} {t : Table}

theorem sorted (h : m.OwnTable t) : t.Sorted := by
  induction h with
  | created => exact List.Pairwise.nil
  | inserted _ h ih => exact Table.insert_sorted ih h
  | updated _ h ih => exact Table.update_sorted ih h
  | deleted condition _ ih => exact ih.filter _

end Model.OwnTable

end RecordStore
