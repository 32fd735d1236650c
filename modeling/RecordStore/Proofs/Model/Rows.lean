import RecordStore.Proofs.Model.Cells
import RecordStore.Proofs.Database.Sorted
import RecordStore.Proofs.Json.Members
import Mathlib.Data.List.Pairwise

/-!
# Rows of models

A row of the table of a model is a list of entries, a cell for each column. A new row has the cells
that its record gives, and defaults or nothing elsewhere; a changed row has the cells that the
changes give, and its old ones elsewhere. Reading a row as a record decodes its entries one by one.
Equality with all members of a record holds of exactly the rows that have the cells of the record.
-/

namespace RecordStore

/-! ## What a column is given -/

/-- What a column is given for a value: an empty cell for `null`, and otherwise the cell that its
kind encodes the value as. -/
def Column.Gives (column : Column) (value : Json) (given : SqlValue) : Prop :=
  value = .null ∧ given = .null ∨ value ≠ .null ∧ column.kind.encode? value = some given

namespace Column

variable {good : Json → Prop} {column : Column} {value : Json} {cell given : SqlValue}

/-- What a column is given is stored as an empty cell or as a cell of its kind. -/
theorem Gives.stored (h : column.Gives value given) (hgood : column.kind = .json → good value) :
    given.stored column.type = .null ∨ column.kind.Cell good (given.stored column.type) := by
  rcases h with ⟨_, rfl⟩ | ⟨hv, hgiven⟩
  · exact .inl (SqlValue.stored_null _)
  · exact .inr (FieldKind.cell_of_encode? hv hgood hgiven)

/-- The condition of equality with a value holds of the cell that the value is stored in and of no
other, and of none if the value is not found. -/
theorem Gives.meaning_equal (h : column.Gives value given)
    (hcell : cell = .null ∨ column.kind.Cell good cell) (name : String) :
    (⟨name, .equal, value⟩ : Condition).meaning column cell = true ↔
      cell = given.stored column.type ∧ column.kind.Found value := by
  rcases h with ⟨rfl, rfl⟩ | ⟨hv, hgiven⟩
  · have hfound : column.kind.Found .null := fun _ _ _ heq => nomatch heq
    rw [SqlValue.stored_null, and_iff_left hfound]
    by_cases hc : cell = .null <;>
      simp [hc, Condition.meaning, Condition.holdsOfEmpty, Condition.holdsOfFull, Json.isNull]
  · have hnull : value.isNull = false := by
      rw [← Bool.not_eq_true, Json.isNull_iff]
      exact hv
    rcases hcell with rfl | hcell
    · have hne : given.stored column.type ≠ .null :=
        (FieldKind.cell_of_encode? hv (fun _ => rfl) hgiven : column.kind.Cell (· = value) _).ne_null
      simp [Condition.meaning, Condition.holdsOfEmpty, hnull, hne.symm]
    · rw [← relates_equal_iff hcell hv hgiven]
      simp [Condition.meaning, Condition.holdsOfFull, hcell.ne_null, hnull]

end Column

theorem Field.encode_gives {f : Field} {value : Json} {cell : SqlValue}
    (h : f.encode value = .ok cell) : (Column.field f).Gives value cell := by
  unfold encode at h
  split at h
  next hnull =>
    split at h
    · cases h
      exact .inl ⟨Json.isNull_iff.mp hnull, rfl⟩
    · cases h
  next hv =>
    split at h
    next hencode =>
      cases h
      exact .inr ⟨fun hnull => hv (Json.isNull_iff.mpr hnull), hencode⟩
    · cases h

namespace Model

variable {m : Model} {allowId : Bool} {record : Record} {cells : List (String × SqlValue)}

theorem column?_name {name : String} {column : Column} (h : m.column? name = some column) :
    column ∈ m.columns ∧ column.name = name :=
  ⟨List.mem_of_find?_eq_some h, by simpa using List.find?_some h⟩

theorem encodeMember_eq_ok {name : String} {value : Json} {entry : String × SqlValue}
    (h : m.encodeMember allowId name value = .ok entry) :
    entry.1 = name ∧ ∃ column, m.column? name = some column ∧ column.Gives value entry.2 := by
  unfold encodeMember at h
  split at h
  next hcolumn =>
    have hname := (column?_name hcolumn).2
    split at h
    · split at h
      next id hid =>
        cases h
        refine ⟨hname, _, hcolumn, .inr ?_⟩
        cases value with
        | number n =>
          have hn : n.toInt64? = some id := hid
          exact ⟨Json.noConfusion, by rw [Column.kind, FieldKind.encode?, hn]; rfl⟩
        | _ => cases hid
      · cases h
    · cases h
  next f hcolumn =>
    obtain ⟨cell, hcell, rfl⟩ := map_eq_ok.mp h
    exact ⟨(column?_name hcolumn).2, _, hcolumn, Field.encode_gives hcell⟩
  · cases h

/-- The primary key is given an integer. -/
theorem encodeMember_id {name : String} {value : Json} {entry : String × SqlValue}
    (h : m.encodeMember allowId name value = .ok entry) (hcolumn : m.column? name = some .id) :
    ∃ id, entry.2 = .integer id := by
  simp only [encodeMember, hcolumn] at h
  split at h
  · split at h
    · cases h
      exact ⟨_, rfl⟩
    · cases h
  · cases h

/-- Changes have no cell for the primary key. -/
theorem encodeMember_ne_id {name : String} {value : Json} {entry : String × SqlValue}
    (h : m.encodeMember false name value = .ok entry) : m.column? name ≠ some .id := by
  intro hcolumn
  simp [encodeMember, hcolumn] at h

/-- The entries of a row: each column with its cell. -/
def entries (m : Model) (row : Row) : List (Column × SqlValue) :=
  m.columns.zip (.integer row.id :: row.cells)

theorem entries_eq (m : Model) (row : Row) : m.entries row =
    (.id, .integer row.id) :: (m.fields.zip row.cells).map fun entry => (.field entry.1, entry.2) := by
  rw [entries, columns, List.zip_cons_cons, List.zip_map_left]
  rfl

/-- The cells of a row are those of its entries. -/
theorem cells_of_entries {row : Row} (hlen : row.cells.length = m.fields.length) :
    (m.entries row).map Prod.snd = .integer row.id :: row.cells := by
  apply List.map_snd_zip
  simp only [columns, List.length_cons, List.length_map]
  omega

theorem entry_of_cell? {row : Row} {name : String} {entry : Column × SqlValue}
    (h : m.cell? row name = some entry) : entry ∈ m.entries row ∧ entry.1.name = name :=
  ⟨List.mem_of_find?_eq_some h, by simpa using List.find?_some h⟩

namespace OwnTable

variable {t : Table} {row : Row}

/-! ## Columns of a table and of its model -/

theorem names_apart (ht : m.OwnTable t) :
    m.columns.Pairwise fun a b => sameName a.name b.name = false := by
  obtain ⟨hid, hd⟩ := ht.distinct
  have hnames : t.columns.map ColumnSpec.name = m.fields.map Field.name :=
    map_of_mapM ht.columns fun _ _ hspec => (columnSpec_eq_ok hspec).1
  have hfields : (m.fields.map Field.name).Pairwise fun a b => sameName a b = false := by
    rw [← hnames]
    exact List.pairwise_map.mpr hd
  refine List.pairwise_cons.mpr ⟨fun column hcolumn => ?_, ?_⟩
  · obtain ⟨f, hf, rfl⟩ := List.mem_map.mp hcolumn
    obtain ⟨spec, hspec, hfield⟩ := exists_of_mapM ht.columns hf
    have hname : spec.name = f.name := (columnSpec_eq_ok hfield).1
    have hother : isIdName f.name = false := hname ▸ hid spec hspec
    rw [sameName_comm]
    exact hother
  · exact List.pairwise_map.mpr (List.pairwise_map.mp hfields)

theorem names_distinct (ht : m.OwnTable t) : m.columns.Pairwise fun a b => a.name ≠ b.name := by
  refine ht.names_apart.imp fun {a b} hab heq => ?_
  rw [heq, sameName_self] at hab
  cases hab

/-- Columns of a model have the same name but for case only if they are the same. -/
theorem sameName_iff (ht : m.OwnTable t) {a b : Column} (ha : a ∈ m.columns) (hb : b ∈ m.columns) :
    sameName a.name b.name = true ↔ a.name = b.name := by
  constructor
  · intro hsame
    have hsymm : Std.Symm fun a b : Column => sameName a.name b.name = false :=
      ⟨fun a b h => (sameName_comm b.name a.name).trans h⟩
    by_contra hne
    have hapart := ht.names_apart.forall ha hb fun heq => hne (congrArg Column.name heq)
    rw [hsame] at hapart
    cases hapart
  · intro heq
    rw [heq, sameName_self]

theorem columns_length (ht : m.OwnTable t) (hrow : row ∈ t.rows) :
    row.cells.length = m.fields.length := (ht.shaped row hrow).trans (mapM_length ht.columns)

theorem entries_names (ht : m.OwnTable t) (hlen : row.cells.length = m.fields.length) :
    (m.entries row).Pairwise fun a b => a.1.name ≠ b.1.name := by
  have hle : m.columns.length ≤ (SqlValue.integer row.id :: row.cells).length := by
    simp only [Model.columns, List.length_cons, List.length_map]
    omega
  have hcolumns : (m.entries row).map Prod.fst = m.columns := List.map_fst_zip hle
  have hnames := ht.names_distinct
  rw [← hcolumns] at hnames
  have hentries := List.pairwise_map.mp hnames
  exact hentries

theorem cell?_of_entry (ht : m.OwnTable t) (hlen : row.cells.length = m.fields.length)
    {entry : Column × SqlValue} (h : entry ∈ m.entries row) :
    m.cell? row entry.1.name = some entry :=
  find?_of_distinct (ht.entries_names hlen) h

end OwnTable

end Model

/-! ## New and changed rows -/

theorem zip_map_zip {α β γ : Type} (as : List α) (bs : List β) (k : α × β → γ) :
    as.zip ((as.zip bs).map k) = (as.zip bs).map fun pair => (pair.1, k pair) := by
  induction as generalizing bs with
  | nil => rfl
  | cons a rest ih =>
    cases bs with
    | nil => rfl
    | cons b bs => rw [List.zip_cons_cons, List.map_cons, List.zip_cons_cons, ih, List.map_cons]

/-- The cell of a field that a record does not give, as the database reads it. -/
def Field.defaultCell (f : Field) : SqlValue :=
  match f.encodeDefault with
  | .ok (some cell) => cell.asConstant
  | _ => .null

/-- The database reads the default of a field as the number that it is, if the field holds doubles. -/
def Field.ReadsDefault (f : Field) : Prop :=
  f.kind = .float → ∀ n x, f.default = some (.number n) → n.toDouble = .finite x →
    x.reread .literal = .finite x

/-- The cell of a field in a new row. -/
def Field.newCell (f : Field) (cells : List (String × SqlValue)) : SqlValue :=
  ((assigned? cells f.name).getD f.defaultCell).stored f.kind.columnType

/-- The cell of a column in a changed row. -/
def Column.changedCell (column : Column) (cells : List (String × SqlValue)) (cell : SqlValue) :
    SqlValue :=
  match assigned? cells.reverse column.name with
  | some given => given.stored column.type
  | none => cell

theorem columnSpec_flags {f : Field} {spec : ColumnSpec} (h : Model.columnSpec f = .ok spec) :
    spec.notNull = !f.nullable ∧ spec.unique = f.unique := by
  simp only [Model.columnSpec, bind_eq_ok, Except.ok.injEq] at h
  obtain ⟨_, _, rfl⟩ := h
  exact ⟨rfl, rfl⟩

theorem columnSpec_default {f : Field} {spec : ColumnSpec} (h : Model.columnSpec f = .ok spec) :
    (spec.default.map SqlValue.asConstant).getD .null = f.defaultCell := by
  simp only [Model.columnSpec, bind_eq_ok, Except.ok.injEq] at h
  obtain ⟨default, hdefault, rfl⟩ := h
  rw [Field.defaultCell, hdefault]
  cases default <;> rfl

namespace Model

variable {m : Model} {allowId : Bool} {record : Record} {cells : List (String × SqlValue)}

/-- A row has the cells that are given: each is stored in the column of its name. -/
def Matches (m : Model) (cells : List (String × SqlValue)) (row : Row) : Prop :=
  ∀ given ∈ cells, ∃ column, m.cell? row given.1 = some (column, given.2.stored column.type)

namespace OwnTable

variable {t : Table} {row : Row} (ht : m.OwnTable t)
include ht

theorem newCells_eq (cells : List (String × SqlValue)) :
    t.newCells cells = m.fields.map fun f => f.newCell cells := by
  refine map_of_mapM ht.columns fun f spec hspec => ?_
  obtain ⟨hname, htype⟩ := columnSpec_eq_ok hspec
  rw [columnSpec_default hspec, hname, htype, Field.newCell]

theorem zip_newCells (cells : List (String × SqlValue)) :
    m.fields.zip (t.newCells cells) = m.fields.map fun f => (f, f.newCell cells) := by
  rw [ht.newCells_eq]
  conv => lhs; lhs; rw [← List.map_id m.fields]
  exact List.zip_map'

theorem entries_new (cells : List (String × SqlValue)) (id : Int64) :
    m.entries ⟨id, t.newCells cells⟩ =
      (.id, .integer id) :: m.fields.map fun f => (.field f, f.newCell cells) := by
  rw [entries, Model.columns, ht.newCells_eq, List.zip_cons_cons, List.zip_map']

theorem zip_changed (cells : List (String × SqlValue)) (row : Row) :
    m.fields.zip (t.changed cells row).cells = (m.fields.zip row.cells).map fun entry =>
      (entry.1, (Column.field entry.1).changedCell cells entry.2) := by
  have hcells : (t.changed cells row).cells =
      (m.fields.zip row.cells).map fun entry => (Column.field entry.1).changedCell cells entry.2 := by
    refine zip_map_of_mapM ht.columns fun f spec cell hspec => ?_
    obtain ⟨hname, htype⟩ := columnSpec_eq_ok hspec
    simp only [Column.changedCell, Column.name, hname, htype]
    rfl
  rw [hcells, zip_map_zip]

theorem entries_changed (hno : assigned? cells.reverse "_id" = none) (row : Row) :
    m.entries (t.changed cells row) =
      (m.entries row).map fun entry => (entry.1, entry.1.changedCell cells entry.2) := by
  have hid : Column.id.changedCell cells (.integer row.id) = .integer row.id := by
    rw [Column.changedCell, show Column.id.name = "_id" from rfl, hno]
  rw [entries_eq, entries_eq, List.map_cons, hid, ht.zip_changed, List.map_map, List.map_map]
  rfl

/-- What is assigned to a column is what a member of the record gives it. -/
theorem assigned?_of_encode (h : m.encode allowId record = .ok cells) {column : Column}
    (hcolumn : column ∈ m.columns) :
    Json.member? record column.name = none ∧ assigned? cells column.name = none ∨
      ∃ value given, Json.member? record column.name = some value ∧
        assigned? cells column.name = some given ∧
        m.encodeMember allowId column.name value = .ok (column.name, given) := by
  have hsame : ∀ (member : String × Json) (given : String × SqlValue),
      m.encodeMember allowId member.1 member.2 = .ok given →
        sameName given.1 column.name = decide (member.1 = column.name) := by
    intro member given hgiven
    obtain ⟨hname, other, hother, _⟩ := encodeMember_eq_ok hgiven
    obtain ⟨hmem, hmember⟩ := column?_name hother
    rw [hname, ← hmember, Bool.eq_iff_iff, ht.sameName_iff hmem hcolumn, decide_eq_true_eq]
  rcases find?_of_mapM h hsame with
    ⟨hnone, hnone'⟩ | ⟨⟨key, value⟩, ⟨name, given⟩, hsome, hsome', hgiven⟩
  · exact .inl ⟨by rw [Json.member?, hnone]; rfl, by rw [assigned?, hnone']; rfl⟩
  · have hkey : key = column.name := by simpa using List.find?_some hsome
    have hname : name = column.name := (encodeMember_eq_ok hgiven).1.trans hkey
    subst hkey hname
    exact .inr ⟨value, given, by rw [Json.member?, hsome]; rfl, by rw [assigned?, hsome']; rfl, hgiven⟩

/-- What is assigned to a column stands under its name. -/
theorem mem_of_assigned? (h : m.encode allowId record = .ok cells) {column : Column}
    (hcolumn : column ∈ m.columns) {given : SqlValue}
    (hassigned : assigned? cells column.name = some given) : (column.name, given) ∈ cells := by
  obtain ⟨⟨name, value⟩, hmem, rfl, hsame⟩ := assigned?_eq_some hassigned
  obtain ⟨member, _, hencode⟩ := mem_of_mapM h hmem
  obtain ⟨hname, other, hother, _⟩ := encodeMember_eq_ok hencode
  obtain ⟨hcolumn', hname'⟩ := column?_name hother
  have heq : name = other.name := hname.trans hname'.symm
  subst heq
  rwa [← (ht.sameName_iff hcolumn' hcolumn).mp hsame]

/-- Changes set no key. -/
theorem assigned?_id (h : m.encode false record = .ok cells) :
    assigned? cells.reverse "_id" = none := by
  have hreverse : m.encode false record.reverse = .ok cells.reverse := mapM_reverse h
  have hid : Column.id ∈ m.columns := List.mem_cons_self
  rcases ht.assigned?_of_encode hreverse hid with ⟨_, hnone⟩ | ⟨value, given, _, _, hgiven⟩
  · exact hnone
  · have hcolumn : m.column? Column.id.name = some .id := List.find?_cons_of_pos (by simp)
    exact absurd hcolumn (encodeMember_ne_id hgiven)

theorem changed_length (hlen : row.cells.length = m.fields.length) :
    (t.changed cells row).cells.length = m.fields.length := by
  have hcolumns : t.columns.length = m.fields.length := mapM_length ht.columns
  simp only [Table.changed, List.length_map, List.length_zip]
  omega

theorem new_length (cells : List (String × SqlValue)) :
    (t.newCells cells).length = m.fields.length := by
  rw [Table.newCells, List.length_map]
  exact mapM_length ht.columns

/-- Of a record without repeated keys every member is assigned to its column. -/
theorem assigned?_of_mem (h : m.encode allowId record = .ok cells) (hd : Json.DistinctKeys record)
    {name : String} {given : SqlValue} (hgiven : (name, given) ∈ cells) :
    ∃ column ∈ m.columns, m.column? name = some column ∧ column.name = name ∧
      assigned? cells name = some given ∧ (column = .id → ∃ id, given = .integer id) := by
  obtain ⟨⟨key, value⟩, hmember, hencode⟩ := mem_of_mapM h hgiven
  obtain ⟨rfl, column, hcolumn, _⟩ := encodeMember_eq_ok hencode
  obtain ⟨hmem, hname⟩ := column?_name hcolumn
  refine ⟨column, hmem, hcolumn, hname, ?_, fun heq => encodeMember_id hencode (heq ▸ hcolumn)⟩
  have hvalue := Json.member?_of_distinct hd hmember
  rcases ht.assigned?_of_encode h hmem with ⟨hnone, _⟩ | ⟨value', given', hsome, hassigned, hencode'⟩
  · rw [hname, hvalue] at hnone
    cases hnone
  · rw [hname, hvalue] at hsome
    cases hsome
    rw [hname] at hencode' hassigned
    cases hencode.symm.trans hencode'
    exact hassigned

/-- A new row has the cells of its record. -/
theorem matches_new (h : m.encode true record = .ok cells) (hd : Json.DistinctKeys record)
    {id : Int64} (hid : t.newId cells = .ok id) : m.Matches cells ⟨id, t.newCells cells⟩ := by
  rintro ⟨name, given⟩ hgiven
  obtain ⟨column, hmem, _, rfl, hassigned, hinteger⟩ := ht.assigned?_of_mem h hd hgiven
  suffices hentry : (column, given.stored column.type) ∈ m.entries ⟨id, t.newCells cells⟩ from
    ⟨column, ht.cell?_of_entry (ht.new_length cells) hentry⟩
  rw [ht.entries_new]
  rcases List.mem_cons.mp hmem with rfl | hfield
  · obtain ⟨id', rfl⟩ := hinteger rfl
    have hreverse : m.encode true record.reverse = .ok cells.reverse := mapM_reverse h
    have hdr : Json.DistinctKeys record.reverse := List.pairwise_reverse.mpr (hd.imp Ne.symm)
    obtain ⟨_, _, _, _, hlast, _⟩ := ht.assigned?_of_mem hreverse hdr (List.mem_reverse.mpr hgiven)
    rw [Table.newId, show assigned? cells.reverse "_id" = some (.integer id') from hlast] at hid
    cases hid
    exact List.mem_cons_self
  · obtain ⟨f, hf, rfl⟩ := List.mem_map.mp hfield
    refine List.mem_cons_of_mem _ (List.mem_map.mpr ⟨f, hf, ?_⟩)
    rw [Field.newCell, show assigned? cells f.name = some given from hassigned]
    rfl

/-- A changed row has the cells of the changes. -/
theorem matches_changed (h : m.encode false record = .ok cells) (hd : Json.DistinctKeys record)
    (hlen : row.cells.length = m.fields.length) : m.Matches cells (t.changed cells row) := by
  rintro ⟨name, given⟩ hgiven
  have hreverse : m.encode false record.reverse = .ok cells.reverse := mapM_reverse h
  have hdr : Json.DistinctKeys record.reverse := List.pairwise_reverse.mpr (hd.imp Ne.symm)
  obtain ⟨column, _, hcolumn, rfl, hassigned, _⟩ :=
    ht.assigned?_of_mem hreverse hdr (List.mem_reverse.mpr hgiven)
  obtain ⟨cell, hcell⟩ : ∃ cell, m.cell? row column.name = some (column, cell) :=
    find?_zip hcolumn (by simp only [Model.columns, List.length_cons, List.length_map]; omega)
  have hentry : (column, given.stored column.type) ∈ m.entries (t.changed cells row) := by
    rw [ht.entries_changed (ht.assigned?_id h)]
    refine List.mem_map.mpr ⟨(column, cell), (entry_of_cell? hcell).1, ?_⟩
    simp only [Column.changedCell, hassigned]
  exact ⟨column, ht.cell?_of_entry (ht.changed_length hlen) hentry⟩

/-- A column that the changes do not name keeps its cell. -/
theorem cell?_changed (h : m.encode false record = .ok cells)
    (hlen : row.cells.length = m.fields.length) {name : String} {entry : Column × SqlValue}
    (hcell : m.cell? row name = some entry) (hn : ∀ given ∈ cells, given.1 ≠ name) :
    m.cell? (t.changed cells row) name = some entry := by
  obtain ⟨hmem, rfl⟩ := entry_of_cell? hcell
  refine ht.cell?_of_entry (ht.changed_length hlen) ?_
  rw [ht.entries_changed (ht.assigned?_id h)]
  refine List.mem_map.mpr ⟨entry, hmem, ?_⟩
  have hcolumn : entry.1 ∈ m.columns := (List.of_mem_zip hmem).1
  have hreverse : m.encode false record.reverse = .ok cells.reverse := mapM_reverse h
  cases hassigned : assigned? cells.reverse entry.1.name with
  | none => simp only [Column.changedCell, hassigned]
  | some given =>
    have hgiven := List.mem_reverse.mp (ht.mem_of_assigned? hreverse hcolumn hassigned)
    exact absurd rfl (hn _ hgiven)

/-- Changes leave a row as it is that has their cells already. -/
theorem changed_of_matches (h : m.encode false record = .ok cells)
    (hlen : row.cells.length = m.fields.length) (hm : m.Matches cells row) :
    t.changed cells row = row := by
  have hreverse : m.encode false record.reverse = .ok cells.reverse := mapM_reverse h
  have hentry : ∀ entry ∈ m.entries row,
      (entry.1, entry.1.changedCell cells entry.2) = id entry := by
    intro entry hmem
    have hcolumn : entry.1 ∈ m.columns := (List.of_mem_zip hmem).1
    cases hassigned : assigned? cells.reverse entry.1.name with
    | none => simp only [Column.changedCell, hassigned, id]
    | some given =>
      have hgiven := List.mem_reverse.mp (ht.mem_of_assigned? hreverse hcolumn hassigned)
      obtain ⟨column, hcell⟩ := hm _ hgiven
      rw [ht.cell?_of_entry hlen hmem] at hcell
      have hsame : entry = (column, given.stored column.type) := Option.some.inj hcell
      have hkept : entry.2 = given.stored entry.1.type := by rw [hsame]
      simp only [Column.changedCell, hassigned, ← hkept, id]
  have hentries := ht.entries_changed (ht.assigned?_id h) row
  rw [List.map_congr_left hentry, List.map_id] at hentries
  have hcells := congrArg (List.map Prod.snd) hentries
  rw [cells_of_entries (ht.changed_length hlen), cells_of_entries hlen] at hcells
  have hchanged := (List.cons.inj hcells).2
  obtain ⟨id, old⟩ := row
  exact congrArg (Row.mk id) hchanged

end OwnTable

end Model

end RecordStore
