import RecordStore.Proofs.Model.Rows
import RecordStore.Operation.Basic

/-!
# Records of rows

The record of a row has a member for each column, with the decoded cell of the column. Its first
member is the key of the row, so that rows of one table have different records. The record of a
changed row is the record of the old row with the changes applied. A search for the members of a
record finds the rows that have the cells of the record.
-/

namespace RecordStore

/-- What a column shows of a value that it was given. -/
def FieldKind.kept (kind : FieldKind) (value : Json) : Json :=
  if value.isNull then .null
  else match kind.encode? value with
    | some cell => kind.decode (cell.stored kind.columnType)
    | none => value

theorem Column.Gives.decode {column : Column} {value : Json} {given : SqlValue}
    (h : column.Gives value given) :
    column.kind.decode (given.stored column.type) = column.kind.kept value := by
  rcases h with ⟨rfl, rfl⟩ | ⟨hv, hgiven⟩
  · rw [SqlValue.stored_null]
    cases column.kind <;> rfl
  · rw [FieldKind.kept, if_neg fun hnull => hv (Json.isNull_iff.mp hnull), hgiven]
    rfl

theorem Json.toInt64?_ofInt64 (n : Int64) : (Json.ofInt64 n).toInt64? = some n := by
  show (if FitsInt64 n.toInt then some (Int64.ofInt n.toInt) else none) = some n
  rw [if_pos (fitsInt64_toInt n), Int64.ofInt_toInt]

theorem Filter.meanings_eq_map (m : Model) (row : Row) (parts : List Filter) :
    meanings m row parts = parts.map (meaning m row) := by
  induction parts with
  | nil => rfl
  | cons part rest ih => rw [meanings, ih, List.map_cons]

namespace Model

/-- The record of a row, column by column. -/
def recordOf (m : Model) (row : Row) : Record :=
  (m.entries row).map fun entry => (entry.1.name, entry.1.kind.decode entry.2)

/-- A record with changes applied: a column that they name shows their last value for it. -/
def applied (m : Model) (changes record : Record) : Record :=
  record.map fun member =>
    match m.column? member.1, Json.member? changes.reverse member.1 with
    | some column, some value => (member.1, column.kind.kept value)
    | _, _ => member

/-- The cells of a row are such as the fields of the model hold. -/
def Typed (good : Json → Prop) (m : Model) (row : Row) : Prop :=
  ∀ entry ∈ m.fields.zip row.cells, entry.1.Holds good entry.2

variable {m : Model} {row : Row}

theorem recordOf_eq (m : Model) (row : Row) : m.recordOf row = (primaryKey, .ofInt64 row.id) ::
    (m.fields.zip row.cells).map fun entry => (entry.1.name, entry.1.kind.decode entry.2) := by
  rw [recordOf, entries_eq, List.map_cons, List.map_map]
  rfl

theorem keyOf_recordOf (m : Model) (row : Row) : keyOf (m.recordOf row) = .ok row.id := by
  have hmember : Json.member? (m.recordOf row) primaryKey = some (.ofInt64 row.id) := by
    rw [recordOf_eq, Json.member?, List.find?_cons_of_pos (by simp)]
    rfl
  rw [keyOf, hmember, Option.bind_some, Json.toInt64?_ofInt64]

/-- What a record that is made of the entries of a row has in a column. -/
theorem member?_entries {name : String} {entry : Column × SqlValue}
    (h : m.cell? row name = some entry) (f : Column × SqlValue → Json) :
    Json.member? ((m.entries row).map fun entry => (entry.1.name, f entry)) name =
      some (f entry) := by
  have hfind : (m.entries row).find? (·.1.name = name) = some entry := h
  rw [Json.member?, List.find?_map]
  simp only [Function.comp_def, hfind, Option.map_some]

/-- What the record of a row shows in a column. -/
theorem member?_recordOf {name : String} {column : Column} {cell : SqlValue}
    (h : m.cell? row name = some (column, cell)) :
    Json.member? (m.recordOf row) name = some (column.kind.decode cell) :=
  member?_entries h _

/-- A row has a cell for every field. -/
theorem exists_cell (hlen : row.cells.length = m.fields.length) {f : Field} (hf : f ∈ m.fields) :
    ∃ cell, (f, cell) ∈ m.fields.zip row.cells := by
  obtain ⟨i, hi, rfl⟩ := List.getElem_of_mem hf
  refine ⟨row.cells[i], ?_⟩
  rw [← List.getElem_zip (h := by rw [List.length_zip]; omega)]
  exact List.getElem_mem _

/-- Rows with the same record have the same key. -/
theorem id_of_recordOf {a b : Row} (h : m.recordOf a = m.recordOf b) : a.id = b.id := by
  have hkeys := congrArg keyOf h
  rw [keyOf_recordOf, keyOf_recordOf] at hkeys
  exact Except.ok.inj hkeys

/-- A record has the key and the fields of its model, in order. -/
theorem recordOf_keys (hlen : row.cells.length = m.fields.length) :
    (m.recordOf row).map Prod.fst = primaryKey :: m.fields.map Field.name := by
  have hfields : (m.fields.zip row.cells).map Prod.fst = m.fields :=
    List.map_fst_zip (Nat.le_of_eq hlen.symm)
  rw [recordOf_eq, List.map_cons, List.map_map]
  refine congrArg (primaryKey :: ·) ?_
  conv => rhs; rw [← hfields, List.map_map]
  rfl

theorem Typed.stored {good : Json → Prop} (h : m.Typed good row) :
    ∀ entry ∈ m.fields.zip row.cells, entry.2 = .null ∨ entry.1.kind.Cell good entry.2 :=
  fun entry hentry => (h entry hentry).imp_left And.left

/-- The cells of a typed row, the key among them. -/
theorem Typed.entry {good : Json → Prop} (h : m.Typed good row) {entry : Column × SqlValue}
    (hmem : entry ∈ m.entries row) : entry.2 = .null ∨ entry.1.kind.Cell good entry.2 := by
  rw [entries_eq] at hmem
  rcases List.mem_cons.mp hmem with rfl | hmem
  · exact .inr (.int row.id)
  · obtain ⟨⟨f, cell⟩, hcell, rfl⟩ := List.mem_map.mp hmem
    exact h.stored _ hcell

/-! ## Searching for a record -/

/-- Equality with a member of a record holds of the rows that have its cell, and of none if the
value is not found. -/
theorem condition_meaning {good : Json → Prop} (hlen : row.cells.length = m.fields.length)
    (htyped : m.Typed good row) {allowId : Bool} {name : String} {value : Json}
    {given : String × SqlValue} (h : m.encodeMember allowId name value = .ok given) :
    (Filter.condition ⟨name, .equal, value⟩).meaning m row = true ↔
      (∃ column, m.cell? row given.1 = some (column, given.2.stored column.type)) ∧
        ∀ column, m.column? name = some column → column.kind.Found value := by
  obtain ⟨hname, column, hcolumn, hgives⟩ := encodeMember_eq_ok h
  obtain ⟨cell, hcell⟩ : ∃ cell, m.cell? row name = some (column, cell) :=
    find?_zip hcolumn (by simp only [Model.columns, List.length_cons, List.length_map]; omega)
  have hmeaning := hgives.meaning_equal (htyped.entry (entry_of_cell? hcell).1) name
  simp only [Filter.meaning, hname, hcell, hcolumn, hmeaning]
  constructor
  · rintro ⟨rfl, hfound⟩
    refine ⟨⟨column, rfl⟩, fun other heq => ?_⟩
    cases heq
    exact hfound
  · rintro ⟨⟨other, heq⟩, hfound⟩
    obtain ⟨rfl, rfl⟩ := Prod.mk.inj (Option.some.inj heq)
    exact ⟨rfl, hfound _ rfl⟩

/-- A search for the members of a record finds the rows that have its cells. -/
theorem matching_meaning {good : Json → Prop} (hlen : row.cells.length = m.fields.length)
    (htyped : m.Typed good row) {allowId : Bool} {lookup : Record}
    {cells : List (String × SqlValue)} (h : m.encode allowId lookup = .ok cells)
    (hfound : ∀ member ∈ lookup, ∀ column, m.column? member.1 = some column →
      column.kind.Found member.2) :
    (Filter.matching lookup).meaning m row = true ↔ m.Matches cells row := by
  rw [Filter.matching, Filter.meaning, Filter.meanings_eq_map, List.map_map, List.all_map,
    List.all_eq_true]
  constructor
  · intro hall given hgiven
    obtain ⟨member, hmember, hencode⟩ := mem_of_mapM h hgiven
    exact ((condition_meaning hlen htyped hencode).mp (hall member hmember)).1
  · intro hmatches member hmember
    obtain ⟨given, hgiven, hencode⟩ := exists_of_mapM h hmember
    exact (condition_meaning hlen htyped hencode).mpr
      ⟨hmatches given hgiven, hfound member hmember⟩

/-! ## Records in a table -/

namespace OwnTable

variable {t : Table} {cells : List (String × SqlValue)} (ht : m.OwnTable t)
include ht

theorem column?_of_mem {column : Column} (h : column ∈ m.columns) :
    m.column? column.name = some column := find?_of_distinct ht.names_distinct h

/-- What is assigned to a field is what it encodes the value as that the record gives it. -/
theorem assigned?_of_field {allowId : Bool} {record : Record} (h : m.encode allowId record = .ok cells)
    {f : Field} (hf : f ∈ m.fields) :
    Json.member? record f.name = none ∧ assigned? cells f.name = none ∨
      ∃ value given, Json.member? record f.name = some value ∧
        assigned? cells f.name = some given ∧ f.encode value = .ok given := by
  have hcolumn : Column.field f ∈ m.columns := List.mem_cons_of_mem _ (List.mem_map_of_mem hf)
  have hfound : m.column? f.name = some (.field f) := ht.column?_of_mem hcolumn
  refine (ht.assigned?_of_encode h hcolumn).imp id ?_
  rintro ⟨value, given, hmember, hassigned, hencode⟩
  refine ⟨value, given, hmember, hassigned, ?_⟩
  simp only [encodeMember, Column.name, hfound] at hencode
  obtain ⟨cell, hcell, heq⟩ := map_eq_ok.mp hencode
  cases heq
  exact hcell

/-- What the record of a row shows for a field. -/
theorem member?_of_field (hlen : row.cells.length = m.fields.length) {f : Field}
    {cell : SqlValue} (h : (f, cell) ∈ m.fields.zip row.cells) :
    Json.member? (m.recordOf row) f.name = some (f.kind.decode cell) := by
  have hentry : (Column.field f, cell) ∈ m.entries row := by
    rw [entries_eq]
    exact List.mem_cons_of_mem _ (List.mem_map.mpr ⟨_, h, rfl⟩)
  have hcell : m.cell? row f.name = some (.field f, cell) := ht.cell?_of_entry hlen hentry
  exact member?_recordOf hcell

theorem recordOf_distinct (hrow : row ∈ t.rows) : Json.DistinctKeys (m.recordOf row) :=
  List.pairwise_map.mpr (ht.entries_names (ht.columns_length hrow))

/-- Reading the columns of a row by their names gives its cells. -/
theorem decode_read (hrow : row ∈ t.rows) :
    m.decode (m.columns.map fun column => (t.read row column.name).2) = m.recordOf row := by
  have hlen := ht.columns_length hrow
  have hfirst : (m.entries row).map Prod.fst = m.columns :=
    List.map_fst_zip (by simp only [Model.columns, List.length_cons, List.length_map]; omega)
  have hread : m.columns.map (fun column => (t.read row column.name).2) =
      .integer row.id :: row.cells := by
    rw [← cells_of_entries hlen]
    conv => lhs; rw [← hfirst, List.map_map]
    apply List.map_congr_left
    intro entry hentry
    have hcell := read_cell? ht (ht.cell?_of_entry hlen hentry)
    simp only [Function.comp_apply, hcell]
  rw [decode, hread]
  have hdistinct : Json.DistinctKeys ([] ++ m.recordOf row) := ht.recordOf_distinct hrow
  exact Json.setMembers_of_distinct hdistinct

/-- The record of a changed row. -/
theorem recordOf_changed {changes : Record} (h : m.encode false changes = .ok cells) (row : Row) :
    m.recordOf (t.changed cells row) = m.applied changes (m.recordOf row) := by
  have hreverse : m.encode false changes.reverse = .ok cells.reverse := mapM_reverse h
  rw [recordOf, ht.entries_changed (ht.assigned?_id h), applied, recordOf, List.map_map,
    List.map_map]
  apply List.map_congr_left
  intro entry hentry
  have hcolumn : entry.1 ∈ m.columns := (List.of_mem_zip hentry).1
  have hfound := ht.column?_of_mem hcolumn
  simp only [Function.comp_apply, Column.changedCell, hfound]
  rcases ht.assigned?_of_encode hreverse hcolumn with
    ⟨hmember, hassigned⟩ | ⟨value, given, hmember, hassigned, hencode⟩
  · rw [hmember, hassigned]
  · obtain ⟨_, column, hsame, hgives⟩ := encodeMember_eq_ok hencode
    cases hfound.symm.trans hsame
    simp only [hmember, hassigned, ← hgives.decode]

end OwnTable

end Model

end RecordStore
