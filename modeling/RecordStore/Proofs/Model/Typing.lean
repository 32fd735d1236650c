import RecordStore.Proofs.Model.Filled
import RecordStore.Proofs.Database.Unique
import RecordStore.Proofs.Json.ReadBack

/-!
# Well-typed tables

The cells that the fields of a model hold can be shown and stored again: a field encodes what it
decodes a cell as, and gives back the cell. For the fields of JSON values that takes a value whose
text is read back. So the record of a row is accepted by the model, and encoded as the cells of the
row. No two rows have the same key, or the same value of a unique field.
-/

namespace RecordStore

/-! ## Cells and their values -/

theorem FieldKind.decode_text {value : Json} (h : value.Proper) :
    json.decode (.text value.text) = value := by
  rw [decode, Json.read_text h]
  rfl

/-- A kind encodes what it decodes a cell as, and gives back the cell. -/
theorem FieldKind.Cell.encode?_decode {kind : FieldKind} {cell : SqlValue}
    (h : kind.Cell Json.Proper cell) :
    kind.decode cell ≠ .null ∧ kind.encode? (kind.decode cell) = some cell := by
  cases h with
  | int n =>
    refine ⟨nofun, ?_⟩
    show (Number.ofInt64 n).toInt64?.map SqlValue.integer = _
    rw [show (Number.ofInt64 n).toInt64? = some n from Json.toInt64?_ofInt64 n]
    rfl
  | float => exact ⟨nofun, rfl⟩
  | text s => exact ⟨nofun, rfl⟩
  | bool b => cases b <;> exact ⟨nofun, rfl⟩
  | @json value hproper hv =>
    rw [decode_text hproper]
    exact ⟨hv, rfl⟩

/-- A field encodes what it decodes a cell as, and gives back the cell. -/
theorem Field.Holds.encode_decode {f : Field} {cell : SqlValue} (h : f.Holds Json.Proper cell) :
    f.encode (f.kind.decode cell) = .ok cell := by
  rcases h with ⟨rfl, hnullable⟩ | hcell
  · have hnull : f.kind.decode .null = .null := by cases f.kind <;> rfl
    rw [hnull, encode, if_pos (Json.isNull_iff.mpr rfl), if_pos hnullable]
  · obtain ⟨hv, hencode⟩ := hcell.encode?_decode
    rw [encode, if_neg fun hnull => hv (Json.isNull_iff.mp hnull), hencode]

namespace Model

variable {m : Model} {t : Table} {row : Row}

/-! ## Records and their rows -/

/-- A record shows a row: it has the primary key and the fields in order as its keys, and the model
encodes it as exactly the cells of the row. -/
structure Shows (m : Model) (row : Row) (record : Record) : Prop where
  keys : record.map Prod.fst = primaryKey :: m.fields.map Field.name
  cells : m.encode true record =
    .ok ((primaryKey, .integer row.id) :: (m.fields.map Field.name).zip row.cells)

theorem encodeMember_entry (ht : m.OwnTable t) (htyped : m.Typed Json.Proper row)
    {entry : Column × SqlValue} (h : entry ∈ m.entries row) :
    m.encodeMember true entry.1.name (entry.1.kind.decode entry.2) =
      .ok (entry.1.name, entry.2) := by
  have hcolumn := ht.column?_of_mem (List.of_mem_zip h).1
  rw [entries_eq] at h
  rcases List.mem_cons.mp h with rfl | h
  · have hid : (FieldKind.int.decode (.integer row.id)).toInt64? = some row.id :=
      Json.toInt64?_ofInt64 row.id
    simp only [encodeMember, hcolumn, Column.kind, hid, if_true]
    rfl
  · obtain ⟨⟨f, cell⟩, hcell, rfl⟩ := List.mem_map.mp h
    have hencode := (htyped _ hcell).encode_decode
    simp only [encodeMember, hcolumn, Column.kind, hencode]
    rfl

/-- The cells of a row with the names of their columns. -/
def namedCells (m : Model) (row : Row) : List (String × SqlValue) :=
  (primaryKey, .integer row.id) :: (m.fields.map Field.name).zip row.cells

theorem namedCells_eq (m : Model) (row : Row) :
    m.namedCells row = (m.entries row).map fun entry => (entry.1.name, entry.2) := by
  rw [entries_eq, List.map_cons, List.map_map, namedCells, List.zip_map_left]
  rfl

/-- The record of a typed row shows the row. -/
theorem shows_recordOf (ht : m.OwnTable t) (hrow : row ∈ t.rows) (htyped : m.Typed Json.Proper row) :
    m.Shows row (m.recordOf row) := by
  refine ⟨recordOf_keys (ht.columns_length hrow), ?_⟩
  show m.encode true (m.recordOf row) = .ok (m.namedCells row)
  rw [namedCells_eq, encode, recordOf]
  have hentries : ∀ entry ∈ m.entries row, m.encodeMember true entry.1.name
      (entry.1.kind.decode entry.2) = .ok (entry.1.name, entry.2) :=
    fun _ hentry => encodeMember_entry ht htyped hentry
  generalize m.entries row = entries at hentries
  induction entries with
  | nil => rfl
  | cons entry rest ih =>
    simp only [List.map_cons, List.mapM_cons, hentries entry List.mem_cons_self]
    rw [ok_bind, ih fun other hother => hentries other (List.mem_cons_of_mem _ hother)]
    rfl

/-- A typed row has the cells that its record gives back. -/
theorem matches_namedCells {good : Json → Prop} (ht : m.OwnTable t) (hrow : row ∈ t.rows)
    (htyped : m.Typed good row) : m.Matches (m.namedCells row) row := by
  intro given hgiven
  rw [namedCells_eq] at hgiven
  obtain ⟨⟨column, cell⟩, hentry, rfl⟩ := List.mem_map.mp hgiven
  have hstored : cell.stored column.type = cell := by
    rcases htyped.entry hentry with hnull | hcell
    · exact (show cell = .null from hnull) ▸ SqlValue.stored_null _
    · exact hcell.stored
  refine ⟨column, ?_⟩
  rw [hstored]
  exact ht.cell?_of_entry (ht.columns_length hrow) hentry

/-- A row that has the cells of another one has its key. -/
theorem Matches.id {other : Row} (h : m.Matches (m.namedCells row) other) : other.id = row.id := by
  obtain ⟨column, hcell⟩ := h (primaryKey, .integer row.id) List.mem_cons_self
  have hid : m.cell? other primaryKey = some (.id, .integer other.id) :=
    List.find?_cons_of_pos (by rfl)
  obtain ⟨rfl, hstored⟩ := Prod.mk.inj (Option.some.inj (hid.symm.trans hcell))
  exact SqlValue.integer.inj hstored

/-- What a typed row shows as a number in a field of doubles is a double. -/
theorem Typed.exact {good : Json → Prop} (ht : m.OwnTable t) (hrow : row ∈ t.rows)
    (htyped : m.Typed good row) {f : Field} (hf : f ∈ m.fields) (hfloat : f.kind = .float)
    {n : Number} (hn : (f.name, Json.number n) ∈ m.recordOf row) : n.Exact := by
  obtain ⟨cell, hcell⟩ := exists_cell (ht.columns_length hrow) hf
  have hshown := ht.member?_of_field (ht.columns_length hrow) hcell
  rw [Json.member?_of_distinct (ht.recordOf_distinct hrow) hn, hfloat] at hshown
  rcases htyped _ hcell with ⟨rfl, _⟩ | hholds
  · cases hshown
  · rw [show (f, cell).1.kind = .float from hfloat] at hholds
    cases hholds
    cases hshown
    trivial

/-! ## Tables -/

/-- The rows of a table are as the fields of its model say. -/
structure WellTyped (m : Model) (t : Table) : Prop where
  length : ∀ row ∈ t.rows, row.cells.length = m.fields.length
  holds : ∀ row ∈ t.rows, ∀ entry ∈ m.fields.zip row.cells,
    entry.1.Holds Json.Proper entry.2 ∧ ∃ value, entry.1.encode value = .ok entry.2
  ids : t.rows.Pairwise fun a b => a.id ≠ b.id
  unique : ∀ f ∈ m.fields, f.unique = true → t.rows.Pairwise fun a b =>
    ∀ x y, (f, x) ∈ m.fields.zip a.cells → (f, y) ∈ m.fields.zip b.cells →
      x ≠ .null → x.order y ≠ .eq

/-- Two rows clash if they have the same value of a unique field. -/
theorem OwnTable.clash_iff (ht : m.OwnTable t) {a b : Row} : t.Clash a b ↔ ∃ f x y,
    (f, x) ∈ m.fields.zip a.cells ∧ (f, y) ∈ m.fields.zip b.cells ∧ f.unique = true ∧
      x ≠ .null ∧ x.order y = .eq := by
  constructor
  · rintro ⟨spec, x, y, hx, hy, hunique, hnull, hsame⟩
    obtain ⟨f, hspec, hx'⟩ := field_of_spec ht.columns hx
    obtain ⟨other, hother, hy'⟩ := field_of_spec ht.columns hy
    have hname : f.name = other.name :=
      (columnSpec_eq_ok hspec).1.symm.trans (columnSpec_eq_ok hother).1
    have hfield {f : Field} {cell : SqlValue} {cells : List SqlValue}
        (h : (f, cell) ∈ m.fields.zip cells) : m.column? f.name = some (.field f) := by
      have hmem : Column.field f ∈ m.columns :=
        List.mem_cons_of_mem _ (List.mem_map_of_mem (List.of_mem_zip h).1)
      exact ht.column?_of_mem hmem
    have hsome := hfield hx'
    rw [hname, hfield hy'] at hsome
    cases hsome
    exact ⟨f, x, y, hx', hy', (columnSpec_flags hspec).2 ▸ hunique, hnull, hsame⟩
  · rintro ⟨f, x, y, hx, hy, hunique, hnull, hsame⟩
    obtain ⟨spec, hspec, hx'⟩ := spec_of_field ht.columns hx
    obtain ⟨other, hother, hy'⟩ := spec_of_field ht.columns hy
    obtain rfl : spec = other := Except.ok.inj (hspec.symm.trans hother)
    exact ⟨spec, x, y, hx', hy', (columnSpec_flags hspec).2.trans hunique, hnull, hsame⟩

/-- Different rows have different values of a unique field. -/
theorem OwnTable.unique_apart (ht : m.OwnTable t) {a b : Row} (ha : a ∈ t.rows) (hb : b ∈ t.rows)
    (hne : a.id ≠ b.id) {f : Field} (hunique : f.unique = true) {x y : SqlValue}
    (hx : (f, x) ∈ m.fields.zip a.cells) (hy : (f, y) ∈ m.fields.zip b.cells) (hnull : x ≠ .null) :
    x.order y ≠ .eq := by
  intro hsame
  exact ht.checked.apart a ha b hb hne
    (ht.clash_iff.mpr ⟨f, x, y, hx, hy, hunique, hnull, hsame⟩)

/-- A table that was filled from records with proper values is well typed. -/
theorem Filled.wellTyped (h : m.Filled Json.Proper t) (hd : m.GoodDefaults Json.Proper) :
    m.WellTyped t := by
  refine ⟨fun row hrow => h.own.columns_length hrow, fun row hrow entry hentry => ?_,
    h.own.sorted.distinct, fun f _ hunique => ?_⟩
  · have hholds := h.typed hd row hrow entry hentry
    exact ⟨hholds, _, hholds.encode_decode⟩
  · refine h.own.sorted.distinct.imp_of_mem fun ha hb hne x y hx hy hnull => ?_
    exact h.own.unique_apart ha hb hne hunique hx hy hnull

end Model

end RecordStore
