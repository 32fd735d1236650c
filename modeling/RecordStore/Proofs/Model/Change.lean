import RecordStore.Proofs.Model.Creation
import RecordStore.Proofs.Model.Members

/-!
# Changing a record

A change replaces what a record shows for the fields that it names, and nothing else. It is accepted
for the row of the record unless it gives a unique field the value that the record of another row
has: the cells that it leaves as they are have passed their checks before.
-/

namespace RecordStore

/-- A kind shows one thing of a value. -/
theorem FieldKind.Keeps.unique {kind : FieldKind} {value shown shown' : Json}
    (h : kind.Keeps value shown) (h' : kind.Keeps value shown') : shown = shown' := by
  unfold Keeps at h h'
  split at h
  · obtain ⟨x, hx, rfl, _⟩ := h
    obtain ⟨y, hy, rfl, _⟩ := h'
    cases hx.symm.trans hy
    rfl
  next hfloat =>
    split at h'
    · exact absurd rfl (hfloat _ rfl)
    · rw [h, h']

/-- A value that is not `null` is stored as a cell of its field. -/
theorem Field.cell_of_encode {f : Field} {value : Json} {given : SqlValue} (hv : value ≠ .null)
    (hproper : f.kind = .json → value.Proper) (h : f.encode value = .ok given) :
    f.kind.Cell Json.Proper (given.stored f.kind.columnType) := by
  rcases Field.encode_gives h with ⟨hnull, _⟩ | ⟨_, hencode⟩
  · exact absurd hnull hv
  · exact FieldKind.cell_of_encode? hv hproper hencode

namespace Model

variable {m : Model} {t : Table} {changes record : Record} {cells : List (String × SqlValue)}
variable {row : Row}

/-- A record is another one with changes made: it has the same keys, it shows what the changes give,
and elsewhere it shows what the other one does. -/
structure Replaces (m : Model) (changes old new : Record) : Prop where
  keys : new.map Prod.fst = old.map Prod.fst
  given : ∀ f ∈ m.fields, ∀ value, Json.member? changes f.name = some value →
    ∃ shown, Json.member? new f.name = some shown ∧ f.kind.Keeps value shown
  kept : ∀ name, Json.member? changes name = none → Json.member? new name = Json.member? old name

/-- Changes give a unique field a value that a record with another key has. A number for a field of
doubles is compared as the double that is kept of it. -/
def Repeats (m : Model) (all : List Record) (id : Int64) (changes : Record) : Prop :=
  ∃ f ∈ m.fields, f.unique = true ∧ ∃ value, Json.member? changes f.name = some value ∧
    value ≠ .null ∧ ∃ shown, f.kind.Keeps value shown ∧
      ∃ other ∈ all, keyOf other ≠ .ok id ∧ Json.member? other f.name = some shown

/-! ## The changed record -/

/-- What a record shows under a name after changes, if it showed `old` before. -/
def shownAfter (m : Model) (changes : Record) (name : String) (old : Json) : Json :=
  match m.column? name, Json.member? changes.reverse name with
  | some column, some value => column.kind.kept value
  | _, _ => old

theorem applied_eq (m : Model) (changes record : Record) : m.applied changes record =
    record.map fun member => (member.1, m.shownAfter changes member.1 member.2) := by
  refine List.map_congr_left fun member _ => ?_
  unfold shownAfter
  cases m.column? member.1 with
  | none => rfl
  | some column => cases Json.member? changes.reverse member.1 <;> rfl

theorem member?_applied (m : Model) (changes record : Record) (name : String) :
    Json.member? (m.applied changes record) name =
      (Json.member? record name).map (m.shownAfter changes name) := by
  rw [Json.member?, Json.member?, applied_eq, List.find?_map]
  simp only [Function.comp_def]
  cases hfound : record.find? fun member => decide (member.1 = name) with
  | none => rfl
  | some member =>
    have hname : member.1 = name := by simpa using List.find?_some hfound
    simp only [Option.map_some, hname]

section
variable (hk : Json.DistinctKeys changes)
include hk

theorem shownAfter_of_none {name : String} (h : Json.member? changes name = none) (old : Json) :
    m.shownAfter changes name old = old := by
  rw [shownAfter, Json.member?_reverse hk, h]
  split
  next hsome => cases hsome
  next => rfl

variable (ht : m.OwnTable t) (hc : m.encode false changes = .ok cells)
include ht hc

/-- The record of a row is changed as the changes say. -/
theorem applied_replaces (hg : m.Admits Json.Proper changes) (hrow : row ∈ t.rows) :
    m.Replaces changes (m.recordOf row) (m.applied changes (m.recordOf row)) where
  keys := by
    rw [applied_eq, List.map_map]
    rfl
  given f hf value hvalue := by
    rcases ht.assigned?_of_field hc hf with ⟨hnone, _⟩ | ⟨value', given, hsome, _, hencode⟩
    · cases hnone.symm.trans hvalue
    cases hsome.symm.trans hvalue
    obtain ⟨cell, hcell⟩ := exists_cell (ht.columns_length hrow) hf
    have hold := ht.member?_of_field (ht.columns_length hrow) hcell
    have hfound : m.column? f.name = some (.field f) :=
      ht.column?_of_mem (List.mem_cons_of_mem _ (List.mem_map_of_mem hf))
    have hproper := hg _ (Json.member?_eq_some hvalue) f hf rfl
    refine ⟨f.kind.kept value, ?_, Field.keeps_of_encode hproper hencode⟩
    rw [member?_applied, hold, Option.map_some, shownAfter, hfound, Json.member?_reverse hk, hvalue]
    rfl
  kept name hnone := by
    rw [member?_applied]
    cases Json.member? (m.recordOf row) name with
    | none => rfl
    | some old => rw [Option.map_some, shownAfter_of_none hk hnone]

/-! ## The changed row -/

/-- What a field of a changed row has: the cell of a value that the changes give, or its old cell. -/
theorem changedCell_cases {f : Field} (hf : f ∈ m.fields) (cell : SqlValue) :
    (∃ value given, Json.member? changes f.name = some value ∧ f.encode value = .ok given ∧
      (Column.field f).changedCell cells cell = given.stored f.kind.columnType) ∨
    Json.member? changes f.name = none ∧ (Column.field f).changedCell cells cell = cell := by
  have hreverse : m.encode false changes.reverse = .ok cells.reverse := mapM_reverse hc
  have hassigned := ht.assigned?_of_field hreverse hf
  simp only [Json.member?_reverse hk] at hassigned
  unfold Column.changedCell
  rcases hassigned with ⟨hnone, hassigned⟩ | ⟨value, given, hsome, hassigned, hencode⟩
  · refine .inr ⟨hnone, ?_⟩
    rw [show assigned? cells.reverse (Column.field f).name = none from hassigned]
  · refine .inl ⟨value, given, hsome, hencode, ?_⟩
    rw [show assigned? cells.reverse (Column.field f).name = some given from hassigned]
    rfl

/-- A changed row is full: a field that takes no `null` is given none. -/
theorem full_changed (hrow : row ∈ t.rows) : t.Full (t.changed cells row) := by
  rw [full_iff ht.columns, ht.zip_changed]
  intro entry hentry hnull
  obtain ⟨⟨f, cell⟩, hcell, rfl⟩ := List.mem_map.mp hentry
  have hf : f ∈ m.fields := (List.of_mem_zip hcell).1
  rcases changedCell_cases hk ht hc hf cell with ⟨value, given, _, hencode, hchanged⟩ | ⟨_, hchanged⟩
  · by_contra hnullable
    exact Field.encode_ne_null (by simpa using hnullable) hencode (hchanged.symm.trans hnull)
  · have hold := (full_iff ht.columns).mp (ht.checked.full row hrow) (f, cell) hcell
    exact hold (hchanged.symm.trans hnull)

end

section
variable (hfilled : m.Filled Json.Proper t) (hd : m.GoodDefaults Json.Proper)
variable (hk : Json.DistinctKeys changes) (hg : m.Admits Json.Proper changes)
variable (hc : m.encode false changes = .ok cells) (hrow : row ∈ t.rows)
include hfilled hd hk hg hc hrow

/-- A changed row clashes with a row exactly if the record of this one shows what a unique field has
after the changes. -/
theorem clash_changed_iff_shown {other : Row} (hother : other ∈ t.rows) :
    t.Clash (t.changed cells row) other ↔ ∃ f cell, (f, cell) ∈ m.fields.zip row.cells ∧
      f.unique = true ∧ (Column.field f).changedCell cells cell ≠ .null ∧
        Json.member? (m.recordOf other) f.name =
          some (f.kind.decode ((Column.field f).changedCell cells cell)) := by
  have hfull := Table.checkNotNull_iff.mpr (full_changed hk hfilled.own hc hrow)
  have htyped := changed_typed hfilled.own hg hc (hfilled.typed hd row hrow) rfl hfull
  rw [hfilled.clash_iff_shown hd htyped.stored hother, hfilled.own.zip_changed]
  constructor
  · rintro ⟨f, x, hx, hrest⟩
    obtain ⟨⟨f, cell⟩, hcell, heq⟩ := List.mem_map.mp hx
    cases heq
    exact ⟨f, cell, hcell, hrest⟩
  · rintro ⟨f, cell, hcell, hrest⟩
    exact ⟨f, _, List.mem_map.mpr ⟨(f, cell), hcell, rfl⟩, hrest⟩

/-- A changed row clashes with another row exactly if the changes repeat a value of its record. A cell
that is left as it is clashed with none before. -/
theorem clash_changed_iff :
    (∃ other ∈ t.rows, other.id ≠ row.id ∧ t.Clash (t.changed cells row) other) ↔
      m.Repeats (t.rows.map m.recordOf) row.id changes := by
  have hown := hfilled.own
  have hshown {other : Row} (hother : other ∈ t.rows) :=
    clash_changed_iff_shown hfilled hd hk hg hc hrow hother
  constructor
  · rintro ⟨other, hother, hid, hclash⟩
    obtain ⟨f, cell, hcell, hunique, hnull, hmember⟩ := (hshown hother).mp hclash
    have hf : f ∈ m.fields := (List.of_mem_zip hcell).1
    rcases changedCell_cases hk hown hc hf cell with
      ⟨value, given, hvalue, hencode, hchanged⟩ | ⟨_, hchanged⟩
    · rw [hchanged] at hnull hmember
      rw [Field.decode_of_encode hencode] at hmember
      have hproper := hg _ (Json.member?_eq_some hvalue) f hf rfl
      have hv : value ≠ .null := by
        rintro rfl
        rcases Field.encode_gives hencode with ⟨_, rfl⟩ | ⟨hv, _⟩
        · exact hnull (SqlValue.stored_null _)
        · exact hv rfl
      refine ⟨f, hf, hunique, value, hvalue, hv, _, Field.keeps_of_encode hproper hencode, _,
        List.mem_map_of_mem hother, fun hkey => ?_, hmember⟩
      rw [keyOf_recordOf, Except.ok.injEq] at hkey
      exact hid hkey
    · rw [hchanged] at hnull hmember
      have hbefore : t.Clash row other := (hfilled.clash_iff_shown hd
        (hfilled.typed hd row hrow).stored hother).mpr ⟨f, cell, hcell, hunique, hnull, hmember⟩
      exact absurd hbefore (hown.checked.apart row hrow other hother (Ne.symm hid))
  · rintro ⟨f, hf, hunique, value, hvalue, hv, shown, hkeeps, _, hmem, hkey, hmember⟩
    obtain ⟨other, hother, rfl⟩ := List.mem_map.mp hmem
    obtain ⟨cell, hcell⟩ := exists_cell (hown.columns_length hrow) hf
    rcases changedCell_cases hk hown hc hf cell with
      ⟨value', given, hsome, hencode, hchanged⟩ | ⟨hnone, _⟩
    · cases hsome.symm.trans hvalue
      have hproper := hg _ (Json.member?_eq_some hvalue) f hf rfl
      have hnew := Field.cell_of_encode hv hproper hencode
      rw [hkeeps.unique (Field.keeps_of_encode hproper hencode),
        ← Field.decode_of_encode hencode] at hmember
      refine ⟨other, hother, fun hid => hkey (hid ▸ keyOf_recordOf m other), ?_⟩
      refine (hshown hother).mpr ⟨f, cell, hcell, hunique, ?_, ?_⟩
      · rw [hchanged]
        exact hnew.ne_null
      · rw [hchanged, hmember]
    · cases hnone.symm.trans hvalue

/-- A row is changed unless the changes repeat a value of another row. -/
theorem updateRow_isOk_iff : (∃ t', Table.updateRow cells t row = .ok t') ↔
    ¬ m.Repeats (t.rows.map m.recordOf) row.id changes := by
  have hown := hfilled.own
  have hnull := Table.checkNotNull_iff.mpr (full_changed hk hown hc hrow)
  have hothers : ∀ other ∈ t.rows.filter (·.id ≠ row.id), other.cells.length = t.columns.length :=
    fun other hother => hown.shaped other (List.mem_filter.mp hother).1
  have hunique : t.checkUnique (t.rows.filter (·.id ≠ row.id)) (t.changed cells row) = .ok () ↔ _ :=
    Table.checkUnique_iff hown.distinct.2 hothers
  rw [← clash_changed_iff hfilled hd hk hg hc hrow]
  constructor
  · rintro ⟨t', hstep⟩ ⟨other, hother, hid, hclash⟩
    obtain ⟨changed, hassign, _, hapart, _⟩ := Table.updateRow_checked hstep
    cases (Table.assign_of_no_id (hown.assigned?_id hc) row).symm.trans hassign
    have hmem : other ∈ t.rows.filter (·.id ≠ row.id) :=
      List.mem_filter.mpr ⟨hother, decide_eq_true hid⟩
    exact (hunique.mp hapart other hmem).2 hclash
  · intro hfree
    have hapart := hunique.mpr fun other hother => by
      obtain ⟨hmem, hid⟩ := List.mem_filter.mp hother
      exact ⟨of_decide_eq_true hid, fun hclash => hfree ⟨other, hmem, of_decide_eq_true hid, hclash⟩⟩
    rw [Table.updateRow, Table.assign_of_no_id (hown.assigned?_id hc), ok_bind, hnull, ok_bind, hapart,
      ok_bind]
    exact ⟨_, rfl⟩

end

end Model

end RecordStore
