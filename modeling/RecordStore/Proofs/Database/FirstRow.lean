import RecordStore.Proofs.Query.Meaning
import RecordStore.Proofs.Model.Validity

/-!
# A first row for every table

Every valid model accepts some record that sets all of its fields, and the table of the model takes
this record as its first row, whatever the constraints of the fields are: no cell of the row is
empty, and there is no other row that it could repeat.
-/

namespace RecordStore

namespace SqlValue

theorem numberOfText?_ne_null (s : String) : numberOfText? s ≠ some .null := by
  unfold numberOfText? ofNumeral?
  simp only
  split
  · split <;> simp
  · simp [Option.map_eq_some_iff]

theorem toNumber_ne_null {value : SqlValue} (h : value ≠ .null) : value.toNumber ≠ .null := by
  cases value with
  | text s =>
    rw [toNumber]
    cases hs : numberOfText? s with
    | none => simp
    | some found => exact fun hnull => numberOfText?_ne_null s (hs.trans (congrArg some hnull))
  | null | integer _ | real _ => exact h

theorem wholeNumber_ne_null {value : SqlValue} (h : value ≠ .null) : value.wholeNumber ≠ .null := by
  unfold wholeNumber
  split
  · split
    · split <;> simp
    · simp
  · exact h

theorem doubled_ne_null {value : SqlValue} (h : value ≠ .null) : value.doubled ≠ .null := by
  unfold doubled
  split
  · simp
  · simp
  · exact h

theorem numberText_ne_null {value : SqlValue} (h : value ≠ .null) (hn : value ≠ .real .nan) :
    value.numberText ≠ .null := by
  cases value with
  | null => exact absurd rfl h
  | integer n => exact SqlValue.noConfusion
  | text s => exact SqlValue.noConfusion
  | real x =>
    cases x with
    | nan => exact absurd rfl hn
    | finite x => exact SqlValue.noConfusion
    | infinity negative => exact SqlValue.noConfusion

/-- A value is stored as an empty cell only if it is empty or not a number. -/
theorem stored_ne_null {value : SqlValue} (h : value ≠ .null) (hn : value ≠ .real .nan)
    (type : ColumnType) : value.stored type ≠ .null := by
  cases type with
  | integer => exact wholeNumber_ne_null (toNumber_ne_null h)
  | real => exact doubled_ne_null (toNumber_ne_null h)
  | text => exact numberText_ne_null h hn

end SqlValue

namespace FieldKind

/-- A value of the kind. -/
def sample : FieldKind → Json
  | .int => .ofInt64 0
  | .float => .number (.float (.zero false))
  | .text => .string ""
  | .bool => .bool false
  | .json => .object []

/-- The cell that holds the value. -/
def sampleCell : FieldKind → SqlValue
  | .int | .bool => .integer 0
  | .float => .real (.finite (.zero false))
  | .text => .text ""
  | .json => .text "{}"

theorem sample_isNull (kind : FieldKind) : kind.sample.isNull = false := by
  cases kind <;> rfl

theorem encode?_sample (kind : FieldKind) : kind.encode? kind.sample = some kind.sampleCell := by
  cases kind <;> rfl

theorem sampleCell_stored_ne_null (kind : FieldKind) (type : ColumnType) :
    kind.sampleCell.stored type ≠ .null := by
  refine SqlValue.stored_ne_null ?_ ?_ type
  all_goals cases kind <;> simp [sampleCell]

end FieldKind

namespace Model

/-- A record that sets all fields. -/
def sampleRecord (m : Model) : Record := m.fields.map fun f => (f.name, f.kind.sample)

/-- The cells of that record. -/
def sampleCells (m : Model) : List (String × SqlValue) :=
  m.fields.map fun f => (f.name, f.kind.sampleCell)

variable {m : Model}

theorem fit_sampleCells (h : m.Narrow) : Fit (m.insert m.sampleCells).demands := by
  have hcells : (m.insert m.sampleCells).cells.length = m.fields.length := List.length_map _
  have hcolumns : m.columns.length = m.fields.length + 1 := by
    rw [columns, List.length_cons, List.length_map]
  rw [Narrow, hcolumns] at h
  rw [fit_insert_iff, hcells]
  unfold columnLimit at h
  unfold parameterLimit
  omega

theorem columns_distinct (hm : m.validate = .ok ()) :
    m.columns.Pairwise fun a b => a.name ≠ b.name := by
  have hsound := validate_eq_ok_iff.mp hm
  apply List.pairwise_cons.mpr
  constructor
  · intro column hcolumn
    obtain ⟨f, hf, rfl⟩ := List.mem_map.mp hcolumn
    exact fun heq => hsound.unreserved f hf heq.symm
  · exact List.pairwise_map.mpr hsound.distinct

/-- Every column of a valid model is found by its name. -/
theorem column?_of_mem (hm : m.validate = .ok ()) {column : Column} (h : column ∈ m.columns) :
    m.column? column.name = some column := find?_of_distinct (columns_distinct hm) h

theorem encode_sampleRecord (hm : m.validate = .ok ()) (allowId : Bool) :
    m.encode allowId m.sampleRecord = .ok m.sampleCells := by
  have hmember : ∀ f ∈ m.fields, m.encodeMember allowId f.name f.kind.sample =
      .ok (f.name, f.kind.sampleCell) := by
    intro f hf
    have hcolumn : m.column? f.name = some (.field f) :=
      column?_of_mem hm (List.mem_cons_of_mem _ (List.mem_map_of_mem hf))
    simp [encodeMember, hcolumn, Field.encode, f.kind.sample_isNull,
      f.kind.encode?_sample, Except.map]
  unfold encode sampleRecord sampleCells
  generalize m.fields = fields at hmember
  induction fields with
  | nil => rfl
  | cons f rest ih =>
    have hrest := ih fun g hg => hmember g (List.mem_cons_of_mem _ hg)
    simp only [List.map_cons, List.mapM_cons, hmember f List.mem_cons_self, hrest]
    rfl

namespace OwnTable

variable {t : Table}

/-- The table has a column for each field, and the column is not called like the primary key. -/
theorem hasColumn (ht : m.OwnTable t) {f : Field} (hf : f ∈ m.fields) :
    t.hasColumn f.name = true ∧ isIdName f.name = false := by
  obtain ⟨spec, hspec, hfield⟩ := exists_of_mapM ht.columns hf
  obtain ⟨hname, _⟩ := columnSpec_eq_ok hfield
  refine ⟨?_, hname ▸ ht.distinct.1 spec hspec⟩
  simp only [Table.hasColumn, Bool.or_eq_true, List.any_eq_true]
  exact .inr ⟨spec, hspec, hname ▸ sameName_self _⟩

theorem assigned?_sampleCells_id (ht : m.OwnTable t) :
    assigned? m.sampleCells.reverse "_id" = none := by
  rw [assigned?_eq_none]
  intro cell hcell
  obtain ⟨f, hf, rfl⟩ := List.mem_map.mp (List.mem_reverse.mp hcell)
  exact (ht.hasColumn hf).2

/-- No cell of the row is empty. -/
theorem newCells_sampleCells (ht : m.OwnTable t) : ∀ cell ∈ t.newCells m.sampleCells, cell ≠ .null := by
  intro cell hcell
  obtain ⟨spec, hspec, rfl⟩ := List.mem_map.mp hcell
  obtain ⟨f, hf, hfield⟩ := mem_of_mapM ht.columns hspec
  obtain ⟨hname, _⟩ := columnSpec_eq_ok hfield
  cases hassigned : assigned? m.sampleCells spec.name with
  | none =>
    have hother := assigned?_eq_none.mp hassigned _ (List.mem_map.mpr ⟨f, hf, rfl⟩)
    rw [← hname, sameName_self] at hother
    cases hother
  | some value =>
    obtain ⟨_, hmem, rfl, _⟩ := assigned?_eq_some hassigned
    obtain ⟨g, _, rfl⟩ := List.mem_map.mp hmem
    rw [Option.getD_some]
    exact g.kind.sampleCell_stored_ne_null _

theorem checkNotNull_sampleCells (ht : m.OwnTable t) (id : Int64) :
    t.checkNotNull ⟨id, t.newCells m.sampleCells⟩ = .ok () := by
  unfold Table.checkNotNull
  split
  next spec cell hfound =>
    have hcell := ht.newCells_sampleCells cell (List.of_mem_zip (List.mem_of_find?_eq_some hfound)).2
    simpa [hcell] using List.find?_some hfound
  · rfl

end OwnTable

end Model

/-- A row repeats nothing where there are no others. -/
theorem Table.checkUnique_nil (t : Table) (row : Row) : t.checkUnique [] row = .ok () := by
  unfold Table.checkUnique
  rw [List.any_nil, if_neg Bool.false_ne_true]
  split
  next hfound =>
    have hrepeats := List.find?_some hfound
    simp [Table.repeats] at hrepeats
  · rfl

/-- The first key of a table. -/
theorem Table.newId_first {t : Table} {cells : List (String × SqlValue)} (hrows : t.rows = [])
    (hsequence : t.sequence = 0) (h : assigned? cells.reverse "_id" = none) :
    t.newId cells = .ok 1 := by
  rw [newId, h, nextId, hrows, hsequence]
  rfl

/-- The first row of a table whose cells are for columns of the table, and as full as they need. -/
theorem Table.insert_first {t : Table} {cells : List (String × SqlValue)} {id : Int64}
    (hrows : t.rows = []) (hknown : ∀ given ∈ cells, t.hasColumn given.1 = true)
    (hid : t.newId cells = .ok id) (hfull : t.checkNotNull ⟨id, t.newCells cells⟩ = .ok ())
    (name : String) : t.insert name cells =
      .ok (⟨t.name, t.columns, [⟨id, t.newCells cells⟩], max t.sequence id⟩, id) := by
  unfold insert
  split
  next given hfound =>
    have hunknown := List.find?_some hfound
    simp [hknown _ (List.mem_of_find?_eq_some hfound)] at hunknown
  · simp only [hid, hfull, hrows, checkUnique_nil, ok_bind, insertRow]

/-- The table of a model takes the record as its first row. -/
theorem Model.OwnTable.insert_sampleCells {m : Model} {t : Table} (ht : m.OwnTable t)
    (hrows : t.rows = []) (hsequence : t.sequence = 0) (name : String) :
    ∃ t' id, t.insert name m.sampleCells = .ok (t', id) ∧ t'.rows.length = 1 := by
  have hid : t.newId m.sampleCells = .ok 1 :=
    Table.newId_first hrows hsequence ht.assigned?_sampleCells_id
  have hknown : ∀ given ∈ m.sampleCells, t.hasColumn given.1 = true := by
    intro given hgiven
    obtain ⟨f, hf, rfl⟩ := List.mem_map.mp hgiven
    exact (ht.hasColumn hf).1
  exact ⟨_, 1, Table.insert_first hrows hknown hid (ht.checkNotNull_sampleCells 1) name, rfl⟩

end RecordStore
