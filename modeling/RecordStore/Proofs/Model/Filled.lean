import RecordStore.Proofs.Model.Records
import RecordStore.Proofs.Database.Reals
import RecordStore.Proofs.Database.Unique

/-!
# Tables filled from records

What the table of a model can hold: rows come from records that the model accepted, and cells are
changed to what accepted changes give. In such a table the cells of every row are cells of their
fields, a cell is empty only where the field takes `null`, and no two rows have the same value of a
unique field.
-/

namespace RecordStore

/-- What a record gives to the fields of JSON values are values that `good` admits. -/
def Model.Admits (good : Json → Prop) (m : Model) (record : Record) : Prop :=
  ∀ member ∈ record, ∀ f ∈ m.fields, f.name = member.1 → f.kind = .json → good member.2

/-- What the table of a model can be if the records that reach it give to the fields of JSON values
what `good` admits: it is created for the model, rows are added and changed, and rows are removed. -/
inductive Model.Filled (good : Json → Prop) (m : Model) : Table → Prop
  | created {s : CreateTable} (hs : m.createTable = .ok s)
      (hc : Database.checkColumns s ["_id"] s.columns = .ok ()) :
      Filled good m ⟨s.table, s.columns, [], 0⟩
  | inserted {t t' : Table} {record : Record} {cells : List (String × SqlValue)} {id : Int64}
      (ht : Filled good m t) (hg : m.Admits good record)
      (hc : m.encode true record = .ok cells) (h : t.insert m.tableName cells = .ok (t', id)) :
      Filled good m t'
  | updated {t t' : Table} {record : Record} {cells : List (String × SqlValue)}
      {condition : Option Clause} {n : Nat} (ht : Filled good m t)
      (hg : m.Admits good record) (hc : m.encode false record = .ok cells)
      (h : t.update cells condition = .ok (t', n)) : Filled good m t'
  | deleted {t : Table} (condition : Option Clause) (ht : Filled good m t) :
      Filled good m (t.delete condition).1

/-- The defaults of the fields of JSON values are values that `good` admits. -/
def Model.GoodDefaults (good : Json → Prop) (m : Model) : Prop :=
  ∀ f ∈ m.fields, f.kind = .json → ∀ value, f.default = some value → good value

/-- Only numbers of kinds of doubles are encoded as reals. -/
theorem FieldKind.real_of_encode? {kind : FieldKind} {value : Json} {x : Double}
    (h : kind.encode? value = some (.real x)) :
    kind = .float ∧ ∃ n, value = .number n ∧ n.toDouble = x := by
  cases kind with
  | float =>
    cases value with
    | number n =>
      cases h
      exact ⟨rfl, n, rfl, rfl⟩
    | _ => cases h
  | int =>
    cases value with
    | number n =>
      obtain ⟨_, _, heq⟩ := Option.map_eq_some_iff.mp h
      cases heq
    | _ => cases h
  | bool =>
    cases value with
    | bool b => cases b <;> cases h
    | _ => cases h
  | text => cases value <;> cases h
  | json => cases h

theorem Field.real_of_encode {f : Field} {value : Json} {x : Double}
    (h : f.encode value = .ok (.real x)) :
    f.kind = .float ∧ ∃ n, value = .number n ∧ n.toDouble = x :=
  FieldKind.real_of_encode?
    ((Field.encode_gives h).resolve_left fun hnull => SqlValue.noConfusion hnull.2).2

/-- A number of a field of doubles is encoded as the double next to it. -/
theorem Field.encode_float {f : Field} (hkind : f.kind = .float) {n : Number} {cell : SqlValue}
    (h : f.encode (.number n) = .ok cell) : cell = .real n.toDouble := by
  obtain ⟨_, hencode⟩ := (encode_gives h).resolve_left fun hnull => Json.noConfusion hnull.1
  rw [show (Column.field f).kind = .float from hkind] at hencode
  exact (Option.some.inj hencode).symm

/-- A constant is read as it is, but for a double, which is read as some other double at most. -/
theorem SqlValue.asConstant_cases (value : SqlValue) : value.asConstant = value ∨
    ∃ x y, value = .real (.finite x) ∧ x.reread .literal = .finite y ∧
      value.asConstant = .real (.finite y) := by
  unfold asConstant
  split
  next x =>
    obtain ⟨y, hy⟩ := x.reread_finite
    exact .inr ⟨x, y, rfl, hy, by rw [hy]⟩
  next => exact .inl rfl

/-- What a column is given by a default is stored as an empty cell or as a cell of its kind. -/
theorem Column.Gives.stored_asConstant {good : Json → Prop} {column : Column} {value : Json}
    {given : SqlValue} (h : column.Gives value given) (hgood : column.kind = .json → good value) :
    given.asConstant.stored column.type = .null ∨
      column.kind.Cell good (given.asConstant.stored column.type) := by
  rcases given.asConstant_cases with heq | ⟨x, y, rfl, _, heq⟩
  · rw [heq]
    exact h.stored hgood
  · obtain ⟨_, hencode⟩ := h.resolve_left fun hnull => SqlValue.noConfusion hnull.2
    have hfloat := (FieldKind.real_of_encode? hencode).1
    rw [heq, Column.type, hfloat]
    exact .inr (.float y.normalized_normalized)

/-- The cell of a default is stored as an empty cell or as a cell of its field. -/
theorem Field.defaultCell_stored {good : Json → Prop} {f : Field}
    (hd : f.kind = .json → ∀ value, f.default = some value → good value) :
    f.defaultCell.stored f.kind.columnType = .null ∨
      f.kind.Cell good (f.defaultCell.stored f.kind.columnType) := by
  unfold defaultCell
  split
  next cell hcell =>
    unfold encodeDefault at hcell
    split at hcell
    · cases hcell
    next value hvalue =>
      obtain ⟨cell', hencode, heq⟩ := map_eq_ok.mp hcell
      cases heq
      exact (encode_gives hencode).stored_asConstant fun hkind => hd hkind value hvalue
  · exact .inl (SqlValue.stored_null _)

namespace Model

variable {good : Json → Prop} {m : Model} {t : Table}

instance [DecidablePred good] (m : Model) (record : Record) : Decidable (m.Admits good record) :=
  inferInstanceAs (Decidable (∀ member ∈ record, ∀ f ∈ m.fields,
    f.name = member.1 → f.kind = .json → good member.2))

theorem admits_any (m : Model) (record : Record) : m.Admits (fun _ => True) record :=
  fun _ _ _ _ _ _ => trivial

theorem Admits.imp {better : Json → Prop} (hgood : ∀ value, good value → better value)
    {record : Record} (h : m.Admits good record) : m.Admits better record :=
  fun member hm f hf hname hkind => hgood _ (h member hm f hf hname hkind)

theorem Admits.reverse {record : Record} (h : m.Admits good record) : m.Admits good record.reverse :=
  fun member hm => h member (List.mem_reverse.mp hm)

namespace Filled

theorem own (h : m.Filled good t) : m.OwnTable t := by
  induction h with
  | created hs hc => exact .created hs hc
  | inserted _ _ _ h ih => exact .inserted ih h
  | updated _ _ _ h ih => exact .updated ih h
  | deleted condition _ ih => exact .deleted condition ih

theorem imp {better : Json → Prop} (hgood : ∀ value, good value → better value)
    (h : m.Filled good t) : m.Filled better t := by
  induction h with
  | created hs hc => exact .created hs hc
  | inserted _ hg hc h ih => exact .inserted ih (hg.imp hgood) hc h
  | updated _ hg hc h ih => exact .updated ih (hg.imp hgood) hc h
  | deleted condition _ ih => exact .deleted condition ih

end Filled

/-! ## Cells of their fields -/

theorem zip_specs (hcolumns : m.fields.mapM columnSpec = .ok t.columns) (cells : List SqlValue) :
    (t.columns.zip cells).map (fun entry => (Except.ok entry.1, entry.2)) =
      (m.fields.zip cells).map fun entry => (columnSpec entry.1, entry.2) :=
  zip_map_of_mapM hcolumns fun f spec cell hspec => by rw [hspec]

/-- What the table has for a field of a row is what the model has for it. -/
theorem spec_of_field (hcolumns : m.fields.mapM columnSpec = .ok t.columns) {f : Field}
    {cell : SqlValue} {cells : List SqlValue} (h : (f, cell) ∈ m.fields.zip cells) :
    ∃ spec, columnSpec f = .ok spec ∧ (spec, cell) ∈ t.columns.zip cells := by
  have hmem : (columnSpec f, cell) ∈
      (t.columns.zip cells).map fun entry => (Except.ok entry.1, entry.2) := by
    rw [zip_specs hcolumns]
    exact List.mem_map.mpr ⟨_, h, rfl⟩
  obtain ⟨⟨spec, other⟩, hspec, heq⟩ := List.mem_map.mp hmem
  obtain ⟨hfield, rfl⟩ := Prod.mk.inj heq
  exact ⟨spec, hfield.symm, hspec⟩

/-- What the model has for a column of a row is what the table has for it. -/
theorem field_of_spec (hcolumns : m.fields.mapM columnSpec = .ok t.columns) {spec : ColumnSpec}
    {cell : SqlValue} {cells : List SqlValue} (h : (spec, cell) ∈ t.columns.zip cells) :
    ∃ f, columnSpec f = .ok spec ∧ (f, cell) ∈ m.fields.zip cells := by
  have hmem : (Except.ok spec, cell) ∈
      (m.fields.zip cells).map fun entry => (columnSpec entry.1, entry.2) := by
    rw [← zip_specs hcolumns]
    exact List.mem_map.mpr ⟨_, h, rfl⟩
  obtain ⟨⟨f, other⟩, hfield, heq⟩ := List.mem_map.mp hmem
  obtain ⟨hspec, rfl⟩ := Prod.mk.inj heq
  exact ⟨f, hspec, hfield⟩

/-- A row is full if it is empty only in fields that take `null`. -/
theorem full_iff (hcolumns : m.fields.mapM columnSpec = .ok t.columns) {row : Row} :
    t.Full row ↔ ∀ entry ∈ m.fields.zip row.cells, entry.2 = .null → entry.1.nullable = true := by
  constructor
  · rintro hfull ⟨f, cell⟩ hentry hnull
    obtain ⟨spec, hspec, hmem⟩ := spec_of_field hcolumns hentry
    by_contra hnullable
    have hrequired : spec.notNull = true := by
      rw [(columnSpec_flags hspec).1]
      simpa using hnullable
    exact hfull _ hmem hrequired hnull
  · rintro hnullable ⟨spec, cell⟩ hentry hnotNull hnull
    obtain ⟨f, hspec, hmem⟩ := field_of_spec hcolumns hentry
    rw [(columnSpec_flags hspec).1, hnullable _ hmem hnull] at hnotNull
    cases hnotNull

theorem Typed.of_checked (hcolumns : m.fields.mapM columnSpec = .ok t.columns) {row : Row}
    (hcells : ∀ entry ∈ m.entries row, entry.2 = .null ∨ entry.1.kind.Cell good entry.2)
    (h : t.checkNotNull row = .ok ()) : m.Typed good row := by
  intro entry hentry
  have hmem : (Column.field entry.1, entry.2) ∈ m.entries row := by
    rw [entries_eq]
    exact List.mem_cons_of_mem _ (List.mem_map_of_mem hentry)
  rcases hcells _ hmem with hnull | hcell
  · exact .inl ⟨hnull, (full_iff hcolumns).mp (Table.checkNotNull_iff.mp h) entry hentry hnull⟩
  · exact .inr hcell

/-- What a record gives is stored as empty cells or as cells of the columns. -/
theorem given_stored {allowId : Bool} {record : Record} {cells : List (String × SqlValue)}
    (ht : m.OwnTable t) (hg : m.Admits good record)
    (hc : m.encode allowId record = .ok cells) {column : Column} (hcolumn : column ∈ m.columns)
    {given : SqlValue} (hassigned : assigned? cells column.name = some given) :
    given.stored column.type = .null ∨ column.kind.Cell good (given.stored column.type) := by
  obtain ⟨⟨name, value⟩, hmember, hencode⟩ := mem_of_mapM hc (ht.mem_of_assigned? hc hcolumn hassigned)
  obtain ⟨hname, other, hother, hgives⟩ := encodeMember_eq_ok hencode
  obtain ⟨hmem, hsame⟩ := column?_name hother
  have heq : other = column := by
    have hfound := ht.column?_of_mem hcolumn
    rw [show column.name = name from hname, hother] at hfound
    exact Option.some.inj hfound
  subst heq
  refine hgives.stored fun hkind => ?_
  rcases List.mem_cons.mp hcolumn with rfl | hfield
  · cases hkind
  · obtain ⟨f, hf, rfl⟩ := List.mem_map.mp hfield
    exact hg _ hmember f hf hsame hkind

/-- The cells of a new row are empty cells or cells of the fields. -/
theorem newCell_stored {record : Record} {cells : List (String × SqlValue)} (ht : m.OwnTable t)
    (hd : m.GoodDefaults good) (hg : m.Admits good record)
    (hc : m.encode true record = .ok cells) {f : Field} (hf : f ∈ m.fields) :
    f.newCell cells = .null ∨ f.kind.Cell good (f.newCell cells) := by
  have hcolumn : Column.field f ∈ m.columns := List.mem_cons_of_mem _ (List.mem_map_of_mem hf)
  unfold Field.newCell
  cases hassigned : assigned? cells f.name with
  | none => exact Field.defaultCell_stored (hd f hf)
  | some given => exact given_stored ht hg hc hcolumn hassigned

/-- A row that is added has cells of the fields. -/
theorem insert_typed {record : Record} {cells : List (String × SqlValue)} {t' : Table} {id : Int64}
    (ht : m.OwnTable t) (hd : m.GoodDefaults good) (hg : m.Admits good record)
    (hc : m.encode true record = .ok cells) (h : t.insert m.tableName cells = .ok (t', id)) :
    m.Typed good ⟨id, t.newCells cells⟩ := by
  refine .of_checked ht.columns (fun entry hentry => ?_) (Table.insert_checked h).1
  rw [ht.entries_new] at hentry
  rcases List.mem_cons.mp hentry with rfl | hentry
  · exact .inr (.int id)
  · obtain ⟨f, hf, rfl⟩ := List.mem_map.mp hentry
    exact newCell_stored ht hd hg hc hf

/-- A row that is changed keeps having cells of the fields. It may be checked by another table with
the same columns. -/
theorem changed_typed {record : Record} {cells : List (String × SqlValue)} {u : Table} {row : Row}
    (ht : m.OwnTable t) (hg : m.Admits good record)
    (hc : m.encode false record = .ok cells) (hrow : m.Typed good row)
    (hu : u.columns = t.columns) (h : u.checkNotNull (t.changed cells row) = .ok ()) :
    m.Typed good (t.changed cells row) := by
  have hcolumns : m.fields.mapM columnSpec = .ok u.columns := hu ▸ ht.columns
  refine .of_checked hcolumns (fun entry hentry => ?_) h
  rw [ht.entries_changed (ht.assigned?_id hc)] at hentry
  obtain ⟨old, hold, rfl⟩ := List.mem_map.mp hentry
  have hcolumn : old.1 ∈ m.columns := (List.of_mem_zip hold).1
  have hreverse : m.encode false record.reverse = .ok cells.reverse := mapM_reverse hc
  show old.1.changedCell cells old.2 = .null ∨ old.1.kind.Cell good (old.1.changedCell cells old.2)
  unfold Column.changedCell
  cases hassigned : assigned? cells.reverse old.1.name with
  | none => exact hrow.entry hold
  | some given =>
    exact given_stored ht hg.reverse hreverse hcolumn hassigned

/-- Every row of a table has cells of the fields. -/
theorem Filled.typed (h : m.Filled good t) (hd : m.GoodDefaults good) :
    ∀ row ∈ t.rows, m.Typed good row := by
  induction h with
  | created => exact fun _ h => absurd h List.not_mem_nil
  | inserted ht hg hc h ih =>
    have hnew := insert_typed ht.own hd hg hc h
    obtain ⟨_, rfl⟩ := Table.insert_eq_ok h
    intro row hrow
    rcases Table.mem_insertRow.mp hrow with rfl | hrow
    · exact hnew
    · exact ih row hrow
  | @updated t t' record cells condition n ht hg hc h ih =>
    have hno := ht.own.assigned?_id hc
    -- Between two steps the table is not one of the stages of `Filled`, but it has the same columns.
    have hrows : t'.columns = t.columns ∧ ∀ row ∈ t'.rows, m.Typed good row := by
      refine Table.update_induction
        (P := fun u => u.columns = t.columns ∧ ∀ row ∈ u.rows, m.Typed good row) h ⟨rfl, ih⟩ ?_
      intro row hrow u u' hu hstep
      obtain ⟨changed, hassign, hnull, _, rfl⟩ := Table.updateRow_checked hstep
      obtain rfl := Except.ok.inj ((Table.assign_of_no_id hno row).symm.trans hassign)
      have hsame : u.changed cells row = t.changed cells row := by
        simp only [Table.changed, hu.1]
      rw [hsame] at hnull
      refine ⟨hu.1, fun other hother => ?_⟩
      rcases Table.mem_insertRow.mp hother with rfl | hother
      · rw [hsame]
        exact changed_typed ht.own hg hc (ih row (List.mem_filter.mp hrow).1) hu.1 hnull
      · exact hu.2 other (List.mem_filter.mp hother).1
    exact hrows.2
  | deleted condition _ ih => exact fun row hrow => ih row (List.mem_filter.mp hrow).1

end Model

end RecordStore
