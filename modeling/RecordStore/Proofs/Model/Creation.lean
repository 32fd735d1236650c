import RecordStore.Proofs.Model.Counter
import RecordStore.Proofs.Model.Encoding

/-!
# Creating a record

The record of a new row shows what the given record has for each field, or the default of the field,
or nothing. The row is added unless there is no key left for it, a field misses a value that it must
have, or a value that must not be repeated is there already.
-/

namespace RecordStore

/-! ## What a new record shows -/

/-- What a new record has for a field that is not given. -/
def Field.defaultValue (f : Field) : Json := f.kind.decode (f.defaultCell.stored f.kind.columnType)

/-- What a new record has for a field. -/
def Field.newValue (f : Field) (record : Record) : Json :=
  match Json.member? record f.name with
  | some value => f.kind.kept value
  | none => f.defaultValue

/-- What a new record has for a column, the key included. -/
def Column.newValue (record : Record) (id : Int64) : Column → Json
  | .id => .ofInt64 id
  | .field f => f.newValue record

/-- The record that is created from a record under a key. -/
def Model.newRecord (m : Model) (record : Record) (id : Int64) : Record :=
  (primaryKey, .ofInt64 id) :: m.fields.map fun f => (f.name, f.newValue record)

/-- What a kind shows of a value that it takes: for a number in a field of doubles the double
nearest to it, and otherwise the value itself. -/
def FieldKind.Keeps (kind : FieldKind) (value shown : Json) : Prop :=
  match kind, value with
  | .float, .number n =>
    ∃ x, n.toDouble = .finite x ∧ shown = .number (.float x.normalized) ∧ x.Nearest n.value
  | _, _ => shown = value

/-- What a kind shows of a default: for a number in a field of doubles what the database reads in the
text of the double nearest to it, and otherwise the value itself. -/
def FieldKind.Assumes (kind : FieldKind) (value shown : Json) : Prop :=
  match kind, value with
  | .float, .number n => ∃ x y, n.toDouble = .finite x ∧ x.Nearest n.value ∧
      x.reread .literal = .finite y ∧ shown = .number (.float y.normalized)
  | _, _ => shown = value

/-- What a new record shows for a field: the given value, or the default, or `null`. The default is
kept exactly if the database reads it as the value that it is. -/
def Field.Shows (f : Field) (record : Record) (shown : Json) : Prop :=
  match Json.member? record f.name, f.default with
  | some value, _ => f.kind.Keeps value shown
  | none, some value => f.kind.Assumes value shown ∧ (f.kind.Keeps value shown ↔ f.ReadsDefault)
  | none, none => shown = .null

/-- A default is kept exactly if the database reads it as the value that it is. -/
theorem Field.keeps_iff {f : Field} {value shown : Json} (hdefault : f.default = some value)
    (h : f.kind.Assumes value shown) : f.kind.Keeps value shown ↔ f.ReadsDefault := by
  unfold FieldKind.Assumes at h
  split at h
  next n hkind =>
    obtain ⟨x, y, hx, hnearest, hy, rfl⟩ := h
    rw [hkind]
    constructor
    · rintro ⟨x', hx', heq, _⟩ _ n' x'' hn hx''
      cases hdefault.symm.trans hn
      cases hx.symm.trans hx'
      cases hx.symm.trans hx''
      rw [hy, ← x.eq_of_reread hy (by simpa using heq)]
    · intro hreads
      cases hy.symm.trans (hreads hkind n x hdefault hx)
      exact ⟨x, hx, rfl, hnearest⟩
  next hother =>
    refine iff_of_true ?_ fun hkind n x hn _ => ?_
    · unfold FieldKind.Keeps
      split
      next n hkind => exact absurd rfl (hother n hkind)
      next => exact h
    · cases hdefault.symm.trans hn
      exact absurd rfl (hother n hkind)

/-- A value that a kind takes is kept. -/
theorem FieldKind.keeps_kept {kind : FieldKind} {value : Json}
    (hproper : kind = .json → value.Proper)
    (h : value = .null ∨ ∃ cell, kind.encode? value = some cell) :
    kind.Keeps value (kind.kept value) := by
  by_cases hv : value = .null
  · subst hv
    cases kind <;> rfl
  obtain ⟨cell, hcell⟩ := h.resolve_left hv
  have hkept : kind.kept value = kind.decode (cell.stored kind.columnType) := by
    rw [kept, if_neg fun hnull => hv (Json.isNull_iff.mp hnull), hcell]
  have hback := givesBack_decode hproper hv hcell
  rw [hkept]
  cases takes_of_encode? hv hcell with
  | int =>
    obtain ⟨i, _, rfl⟩ := Option.map_eq_some_iff.mp hcell
    exact hback
  | float n =>
    obtain ⟨x, _, hx, hnearest⟩ := hback
    rw [encode?, hx] at hcell
    cases hcell
    exact ⟨x, hx, rfl, hnearest⟩
  | text | bool | json =>
    cases hcell
    exact hback

/-- What a field shows of a value that it takes. -/
theorem Field.keeps_of_encode {f : Field} {value : Json} (hproper : f.kind = .json → value.Proper)
    {cell : SqlValue}
    (h : f.encode value = .ok cell) : f.kind.Keeps value (f.kind.kept value) := by
  apply FieldKind.keeps_kept hproper
  rcases Field.encode_gives h with ⟨hnull, _⟩ | ⟨_, hencode⟩
  · exact .inl hnull
  · exact .inr ⟨cell, hencode⟩

/-- A field that takes no `null` stores what it takes as a full cell. -/
theorem Field.encode_ne_null {f : Field} (hn : f.nullable = false) {value : Json} {cell : SqlValue}
    (h : f.encode value = .ok cell) : cell.stored f.kind.columnType ≠ .null := by
  rcases Field.encode_gives h with ⟨rfl, _⟩ | ⟨hv, hencode⟩
  · rw [encode, if_pos (Json.isNull_iff.mpr rfl), hn] at h
    cases h
  · exact (FieldKind.cell_of_encode? hv (fun _ => rfl) hencode :
      f.kind.Cell (· = value) _).ne_null

/-- What a field that takes no `null` reads its default as is stored as a full cell. -/
theorem Field.asConstant_ne_null {f : Field} (hn : f.nullable = false) {value : Json}
    {cell : SqlValue}
    (h : f.encode value = .ok cell) : cell.asConstant.stored f.kind.columnType ≠ .null := by
  rcases cell.asConstant_cases with heq | ⟨x, y, rfl, _, heq⟩
  · rw [heq]
    exact encode_ne_null hn h
  · rw [heq, (real_of_encode h).1]
    exact SqlValue.noConfusion

theorem Field.decode_of_encode {f : Field} {value : Json} {given : SqlValue}
    (h : f.encode value = .ok given) :
    f.kind.decode (given.stored f.kind.columnType) = f.kind.kept value :=
  (Field.encode_gives h).decode

/-- What the database reads a default as. -/
theorem Field.assumes_of_encode {f : Field} {value : Json} (hproper : f.kind = .json → value.Proper)
    {cell : SqlValue} (h : f.encode value = .ok cell) :
    f.kind.Assumes value (f.kind.decode (cell.asConstant.stored f.kind.columnType)) := by
  unfold FieldKind.Assumes
  split
  next n hkind =>
    obtain ⟨x, hx, hnearest⟩ := n.toDouble_nearest
    obtain ⟨y, hy⟩ := x.reread_finite
    refine ⟨x, y, hx, hnearest, hy, ?_⟩
    rw [encode_float hkind h, hx]
    simp only [SqlValue.asConstant, hy, hkind]
    rfl
  next hother =>
    rcases cell.asConstant_cases with heq | ⟨x, _, rfl, _⟩
    · have hkept := keeps_of_encode hproper h
      rw [heq, decode_of_encode h]
      unfold FieldKind.Keeps at hkept
      split at hkept
      next n hkind => exact absurd rfl (hother n hkind)
      next => exact hkept
    · obtain ⟨hkind, n, hvalue, _⟩ := real_of_encode h
      exact absurd hvalue (hother n hkind)

/-- The default of a field gives its cell. -/
theorem Field.default_cases {f : Field} {spec : ColumnSpec} (h : Model.columnSpec f = .ok spec) :
    f.default = none ∧ f.defaultCell = .null ∨ ∃ value cell, f.default = some value ∧
      f.encode value = .ok cell ∧ f.defaultCell = cell.asConstant := by
  simp only [Model.columnSpec, bind_eq_ok] at h
  obtain ⟨default, hdefault, _⟩ := h
  rw [defaultCell, hdefault]
  unfold encodeDefault at hdefault
  split at hdefault
  next hnone =>
    cases hdefault
    exact .inl ⟨hnone, rfl⟩
  next value hvalue =>
    obtain ⟨cell, hencode, rfl⟩ := map_eq_ok.mp hdefault
    exact .inr ⟨value, cell, hvalue, hencode, rfl⟩

/-! ## Values that are told apart -/

namespace FieldKind

variable {good : Json → Prop} {kind : FieldKind} {x y : SqlValue}

/-- Cells of one kind that compare as equal are the same. -/
theorem Cell.eq_of_order (hx : kind.Cell good x) (hy : kind.Cell good y) (h : x.order y = .eq) :
    x = y := by
  cases hx with
  | int =>
    cases hy
    rw [SqlValue.order_integer.mp h]
  | float hx =>
    cases hy with
    | float hy => rw [← hx, ← hy, Binary64.normalized_eq_iff.mpr (SqlValue.order_real.mp h)]
  | text =>
    cases hy
    rw [SqlValue.order_text.mp h]
  | bool a =>
    cases hy with
    | bool b => cases a <;> cases b <;> first | rfl | cases h
  | json =>
    cases hy
    rw [SqlValue.order_text.mp h]

/-- A cell compares as equal to another exactly if they are decoded as the same value. -/
theorem Cell.order_eq_iff (hx : kind.Cell Json.Proper x)
    (hy : y = .null ∨ kind.Cell Json.Proper y) : x.order y = .eq ↔ kind.decode x = kind.decode y := by
  obtain ⟨hv, hencode⟩ := hx.encode?_decode
  rcases hy with rfl | hy
  · have hnull : kind.decode .null = .null := by cases kind <;> rfl
    refine iff_of_false (fun h => ?_) fun h => hv (h.trans hnull)
    cases hx with
    | bool b => cases b <;> cases h
    | _ => cases h
  · refine ⟨fun h => congrArg kind.decode (hx.eq_of_order hy h), fun h => ?_⟩
    rw [h, hy.encode?_decode.2] at hencode
    cases hencode
    exact SqlValue.order_self _

end FieldKind

namespace Model

variable {m : Model} {t : Table} {record : Record} {cells : List (String × SqlValue)}
variable {held : Int64 → Prop}

/-! ## The new row -/

theorem newRecord_eq (m : Model) (record : Record) (id : Int64) :
    m.newRecord record id = m.columns.map fun column => (column.name, column.newValue record id) := by
  rw [newRecord, columns, List.map_cons, List.map_map]
  rfl

/-- What a new record shows under the name of a field. -/
theorem member?_newRecord {f : Field} (h : m.column? f.name = some (.field f)) (id : Int64) :
    Json.member? (m.newRecord record id) f.name = some (f.newValue record) := by
  have hfound : m.columns.find? (fun column => decide (column.name = f.name)) = some (.field f) := h
  rw [Json.member?, newRecord_eq, List.find?_map]
  simp only [Function.comp_def, hfound, Option.map_some, Column.newValue]

/-- A field gets no value that it must have. -/
def Missing (m : Model) (record : Record) : Prop :=
  ∃ f ∈ m.fields, f.nullable = false ∧ Json.member? record f.name = none ∧ f.default = none

/-- The key or the value of a unique field is that of a record that is there. -/
def Collides (m : Model) (all : List Record) (record : Record) : Prop :=
  (∃ id, keyOf record = .ok id ∧ ∃ other ∈ all, keyOf other = .ok id) ∨
    ∃ f ∈ m.fields, f.unique = true ∧ f.newValue record ≠ .null ∧
      ∃ other ∈ all, Json.member? other f.name = some (f.newValue record)

/-- A key is needed and the largest one was held already. -/
def Exhausted (held : Int64 → Prop) (record : Record) : Prop :=
  Json.member? record primaryKey = none ∧ ∃ id, held id ∧ id.toInt = maxInt64

namespace OwnTable

variable (ht : m.OwnTable t) (hc : m.encode true record = .ok cells)
include ht hc

/-- What a field of a new row is given: a value of the record, or its default, or nothing. -/
theorem newCell_cases {f : Field} (hf : f ∈ m.fields) :
    (∃ value given, Json.member? record f.name = some value ∧ f.encode value = .ok given ∧
      f.newCell cells = given.stored f.kind.columnType ∧ f.newValue record = f.kind.kept value) ∨
    (∃ value given, Json.member? record f.name = none ∧ f.default = some value ∧
      f.encode value = .ok given ∧ f.newCell cells = given.asConstant.stored f.kind.columnType ∧
        f.newValue record = f.kind.decode (f.newCell cells)) ∨
    Json.member? record f.name = none ∧ f.default = none ∧ f.newCell cells = .null ∧
      f.newValue record = .null := by
  unfold Field.newCell Field.newValue Field.defaultValue
  rcases ht.assigned?_of_field hc hf with ⟨hnone, hassigned⟩ | ⟨value, given, hsome, hassigned, hencode⟩
  · obtain ⟨spec, _, hspec⟩ := exists_of_mapM ht.columns hf
    rw [hassigned, hnone]
    rcases Field.default_cases hspec with ⟨hdefault, hcell⟩ | ⟨value, cell, hdefault, hencode, hcell⟩
    · refine .inr (.inr ⟨rfl, hdefault, ?_, ?_⟩)
      · rw [hcell]
        exact SqlValue.stored_null _
      · simp only [hcell, SqlValue.stored_null]
        cases f.kind <;> rfl
    · exact .inr (.inl ⟨value, cell, rfl, hdefault, hencode, by rw [hcell]; rfl, rfl⟩)
  · exact .inl ⟨value, given, hsome, hencode, by rw [hassigned]; rfl, by rw [hsome]⟩

theorem decode_newCell {f : Field} (hf : f ∈ m.fields) :
    f.kind.decode (f.newCell cells) = f.newValue record := by
  rcases ht.newCell_cases hc hf with
    ⟨value, given, _, hencode, hcell, hshown⟩ | ⟨_, _, _, _, _, _, hshown⟩ | ⟨_, _, hcell, hshown⟩
  · rw [hcell, hshown]
    exact Field.decode_of_encode hencode
  · exact hshown.symm
  · rw [hcell, hshown]
    cases f.kind <;> rfl

/-- The record of a new row. -/
theorem recordOf_new (id : Int64) :
    m.recordOf ⟨id, t.newCells cells⟩ = m.newRecord record id := by
  rw [recordOf, ht.entries_new, newRecord, List.map_cons, List.map_map]
  refine congrArg₂ List.cons rfl (List.map_congr_left fun f hf => ?_)
  exact congrArg (Prod.mk f.name) (ht.decode_newCell hc hf)

/-- The new record shows for each field what the record gives, or the default, or `null`. -/
theorem shows_newValue (hd : m.GoodDefaults Json.Proper)
    (hg : m.Admits Json.Proper record) {f : Field} (hf : f ∈ m.fields) :
    f.Shows record (f.newValue record) := by
  rcases ht.newCell_cases hc hf with ⟨value, given, hgiven, hencode, _, hshown⟩ |
    ⟨value, given, hnone, hdefault, hencode, hcell, hshown⟩ | ⟨hnone, hdefault, _, hshown⟩
  · rw [hshown, Field.Shows, hgiven]
    exact Field.keeps_of_encode (hg _ (Json.member?_eq_some hgiven) f hf rfl) hencode
  · rw [hshown, Field.Shows, hnone, hdefault, hcell]
    have hassumes := Field.assumes_of_encode (fun hkind => hd f hf hkind value hdefault) hencode
    exact ⟨hassumes, Field.keeps_iff hdefault hassumes⟩
  · rw [hshown, Field.Shows, hnone, hdefault]

/-- The new row is full unless a field misses its value. -/
theorem full_new_iff (id : Int64) : t.Full ⟨id, t.newCells cells⟩ ↔ ¬ m.Missing record := by
  rw [full_iff ht.columns, ht.zip_newCells]
  constructor
  · rintro hfull ⟨f, hf, hnullable, hnone, hdefault⟩
    rcases ht.newCell_cases hc hf with ⟨_, _, hgiven, _⟩ | ⟨_, _, _, hsome, _⟩ | ⟨_, _, hcell, _⟩
    · cases hnone.symm.trans hgiven
    · cases hdefault.symm.trans hsome
    · rw [hfull _ (List.mem_map_of_mem hf) hcell] at hnullable
      cases hnullable
  · rintro hpresent entry hentry hnull
    obtain ⟨f, hf, rfl⟩ := List.mem_map.mp hentry
    by_contra hnullable
    have hrequired : f.nullable = false := by simpa using hnullable
    rcases ht.newCell_cases hc hf with ⟨_, _, _, hencode, hcell, _⟩ |
      ⟨_, _, _, _, hencode, hcell, _⟩ | ⟨hnone, hdefault, _⟩
    · exact Field.encode_ne_null hrequired hencode (hcell.symm.trans hnull)
    · exact Field.asConstant_ne_null hrequired hencode (hcell.symm.trans hnull)
    · exact hpresent ⟨f, hf, hrequired, hnone, hdefault⟩

end OwnTable

namespace Filled

variable (hfilled : m.Filled Json.Proper t) (hd : m.GoodDefaults Json.Proper)
include hfilled hd

/-- A row with cells of the fields clashes with a row of the table exactly if the record of this one
shows what a unique field of the first has. -/
theorem clash_iff_shown {row other : Row} (hcells : ∀ entry ∈ m.fields.zip row.cells,
      entry.2 = .null ∨ entry.1.kind.Cell Json.Proper entry.2) (hother : other ∈ t.rows) :
    t.Clash row other ↔ ∃ f x, (f, x) ∈ m.fields.zip row.cells ∧ f.unique = true ∧ x ≠ .null ∧
      Json.member? (m.recordOf other) f.name = some (f.kind.decode x) := by
  have hlength := hfilled.own.columns_length hother
  have hold {f : Field} {y : SqlValue} (hy : (f, y) ∈ m.fields.zip other.cells) :
      y = .null ∨ f.kind.Cell Json.Proper y := (hfilled.typed hd other hother).stored _ hy
  rw [hfilled.own.clash_iff]
  constructor
  · rintro ⟨f, x, y, hx, hy, hunique, hnull, hsame⟩
    have hcell := (hcells _ hx).resolve_left hnull
    refine ⟨f, x, hx, hunique, hnull, ?_⟩
    rw [hfilled.own.member?_of_field hlength hy, (hcell.order_eq_iff (hold hy)).mp hsame]
  · rintro ⟨f, x, hx, hunique, hnull, hmember⟩
    obtain ⟨y, hy⟩ := exists_cell hlength (List.of_mem_zip hx).1
    have hcell := (hcells _ hx).resolve_left hnull
    rw [hfilled.own.member?_of_field hlength hy, Option.some.injEq] at hmember
    exact ⟨f, x, y, hx, hy, hunique, hnull, (hcell.order_eq_iff (hold hy)).mpr hmember.symm⟩

variable (hg : m.Admits Json.Proper record) (hc : m.encode true record = .ok cells)
include hg hc

/-- The new row clashes with a row exactly if the new record has the same value of a unique field as
a record that is there. -/
theorem clash_new_iff (id : Int64) :
    (∃ row ∈ t.rows, t.Clash ⟨id, t.newCells cells⟩ row) ↔
      ∃ f ∈ m.fields, f.unique = true ∧ f.newValue record ≠ .null ∧
        ∃ other ∈ t.rows.map m.recordOf, Json.member? other f.name = some (f.newValue record) := by
  have hown := hfilled.own
  have hcells : ∀ entry ∈ m.fields.zip (t.newCells cells),
      entry.2 = .null ∨ entry.1.kind.Cell Json.Proper entry.2 := by
    rw [hown.zip_newCells]
    intro entry hentry
    obtain ⟨f, hf, rfl⟩ := List.mem_map.mp hentry
    exact newCell_stored hown hd hg hc hf
  constructor
  · rintro ⟨row, hrow, hclash⟩
    obtain ⟨f, x, hx, hunique, hnull, hmember⟩ := (hfilled.clash_iff_shown hd hcells hrow).mp hclash
    have hcell := (hcells _ hx).resolve_left hnull
    rw [hown.zip_newCells] at hx
    obtain ⟨f, hf, heq⟩ := List.mem_map.mp hx
    cases heq
    have hvalue := hown.decode_newCell hc hf
    rw [hvalue] at hmember
    exact ⟨f, hf, hunique, hvalue ▸ hcell.encode?_decode.1, _, List.mem_map_of_mem hrow, hmember⟩
  · rintro ⟨f, hf, hunique, hne, _, hother, hmember⟩
    obtain ⟨row, hrow, rfl⟩ := List.mem_map.mp hother
    have hvalue := hown.decode_newCell hc hf
    have hnull : f.newCell cells ≠ .null := by
      intro hnull
      rw [hnull] at hvalue
      refine hne (hvalue.symm.trans ?_)
      cases f.kind <;> rfl
    rw [← hvalue] at hmember
    refine ⟨row, hrow, (hfilled.clash_iff_shown hd hcells hrow).mpr ?_⟩
    refine ⟨f, _, ?_, hunique, hnull, hmember⟩
    rw [hown.zip_newCells]
    exact List.mem_map.mpr ⟨f, hf, rfl⟩

end Filled

/-- A new row gets a key, unless it needs one and there is none left. A key is repeated only if the
record gives it. -/
theorem newId_cases (ht : m.OwnTable t) (hbounded : t.Bounded) (hcounts : t.Counts held)
    (hk : Json.DistinctKeys record) (hc : m.encode true record = .ok cells) :
    Exhausted held record ∧ t.newId cells = .error .full ∨
      ¬ Exhausted held record ∧ ∃ id, t.newId cells = .ok id ∧
        ((∃ row ∈ t.rows, row.id = id) ↔
          ∃ id, keyOf record = .ok id ∧ ∃ other ∈ t.rows.map m.recordOf, keyOf other = .ok id) := by
  cases hmember : Json.member? record primaryKey with
  | none =>
    have hkey : ∀ id, keyOf record ≠ .ok id := by
      intro id hid
      rw [keyOf, hmember] at hid
      cases hid
    rw [ht.newId_of_none hc hmember]
    cases hnext : t.nextId with
    | error e =>
      obtain ⟨hlast, rfl⟩ := hbounded.nextId_eq_error.mp hnext
      exact .inl ⟨⟨hmember, hcounts.last_iff.mpr hlast⟩, rfl⟩
    | ok id =>
      have hid := hbounded.nextId_eq_ok.mp hnext
      refine .inr ⟨?_, id, rfl, iff_of_false ?_ ?_⟩
      · rintro ⟨_, hheld⟩
        cases hnext.symm.trans (hbounded.nextId_eq_error.mpr ⟨hcounts.last_iff.mp hheld, rfl⟩)
      · rintro ⟨row, hrow, rfl⟩
        have hreached := hbounded.rows row hrow
        omega
      · rintro ⟨id, hid, _⟩
        exact hkey id hid
  | some value =>
    obtain ⟨id, hvalue, hid⟩ := ht.newId_of_some hc hk hmember
    have hkey : keyOf record = .ok id := by
      rw [keyOf, hmember, Option.bind_some, hvalue]
    have hgiven : ¬ Exhausted held record := by
      rintro ⟨hnone, _⟩
      cases hnone.symm.trans hmember
    refine .inr ⟨hgiven, id, hid, ?_⟩
    constructor
    · rintro ⟨row, hrow, rfl⟩
      exact ⟨row.id, hkey, _, List.mem_map_of_mem hrow, keyOf_recordOf m row⟩
    · rintro ⟨other, hother, _, hmem, hsame⟩
      obtain ⟨row, hrow, rfl⟩ := List.mem_map.mp hmem
      cases hkey.symm.trans hother
      rw [keyOf_recordOf, Except.ok.injEq] at hsame
      exact ⟨row, hrow, hsame⟩

/-- A row is added for an accepted record exactly if there is a key for it, no field misses a value
and nothing is repeated; otherwise the lack of a key comes first. -/
theorem insert_cases (hfilled : m.Filled Json.Proper t) (hcounts : t.Counts held)
    (hd : m.GoodDefaults Json.Proper) (hk : Json.DistinctKeys record)
    (hg : m.Admits Json.Proper record) (hc : m.encode true record = .ok cells) :
    Exhausted held record ∧ t.insert m.tableName cells = .error .full ∨
      ¬ Exhausted held record ∧ (m.Missing record ∨ m.Collides (t.rows.map m.recordOf) record) ∧
        (∃ cause, cause.isConstraint = true ∧ t.insert m.tableName cells = .error cause) ∨
      ¬ Exhausted held record ∧ ¬ m.Missing record ∧ ¬ m.Collides (t.rows.map m.recordOf) record ∧
        ∃ t' id, t.insert m.tableName cells = .ok (t', id) := by
  have hown := hfilled.own
  have hinsert := hown.insert_eq hc m.tableName
  rcases newId_cases hown hfilled.bounded hcounts hk hc with
    ⟨hlack, hid⟩ | ⟨henough, id, hid, hrepeated⟩
  · rw [hid, error_bind] at hinsert
    exact .inl ⟨hlack, hinsert⟩
  rw [hid, ok_bind] at hinsert
  have hfull := hown.full_new_iff hc id
  cases hnull : t.checkNotNull ⟨id, t.newCells cells⟩ with
  | error cause =>
    rw [hnull, error_bind] at hinsert
    have hmissing : m.Missing record := by
      by_contra hpresent
      cases hnull.symm.trans (Table.checkNotNull_iff.mpr (hfull.mpr hpresent))
    exact .inr (.inl ⟨henough, .inl hmissing, cause, Table.checkNotNull_error hnull, hinsert⟩)
  | ok =>
    have hpresent := hfull.mp (Table.checkNotNull_iff.mp hnull)
    rw [hnull, ok_bind] at hinsert
    have hclash := hfilled.clash_new_iff hd hg hc id
    have hunique : t.checkUnique t.rows ⟨id, t.newCells cells⟩ = .ok () ↔ _ :=
      Table.checkUnique_iff hown.distinct.2 hown.shaped
    cases hcheck : t.checkUnique t.rows ⟨id, t.newCells cells⟩ with
    | error cause =>
      rw [hcheck, error_bind] at hinsert
      refine .inr (.inl ⟨henough, .inr ?_, cause, Table.checkUnique_error hcheck, hinsert⟩)
      by_contra hfree
      rw [Collides, not_or, ← hrepeated, ← hclash] at hfree
      cases hcheck.symm.trans (hunique.mpr fun other hother =>
        ⟨fun heq => hfree.1 ⟨other, hother, heq⟩, fun h => hfree.2 ⟨other, hother, h⟩⟩)
    | ok =>
      rw [hcheck, ok_bind] at hinsert
      refine .inr (.inr ⟨henough, hpresent, ?_, _, id, hinsert⟩)
      rw [Collides, ← hrepeated, ← hclash]
      rintro (⟨row, hrow, heq⟩ | ⟨row, hrow, h⟩)
      · exact (hunique.mp hcheck row hrow).1 heq
      · exact (hunique.mp hcheck row hrow).2 h

end Model

end RecordStore
