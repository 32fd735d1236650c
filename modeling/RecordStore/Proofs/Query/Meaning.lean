import RecordStore.Proofs.Database.Rows

/-!
# The meaning of filters

What a filter says about a row, in two-valued logic and without any statement: a conjunction holds
where all of its parts do, a disjunction where some part does or where it has none, and a condition
is a property of the cell of its column. The clause of a filter is evaluated in three-valued logic,
where a comparison with an empty cell is neither true nor false; it is true of exactly the rows of
which the filter holds.
-/

namespace RecordStore

namespace Truth

theorem all_eq_true {values : List Truth} :
    Truth.all values = some true ↔ ∀ value ∈ values, value = some true := by
  induction values with
  | nil => simp [Truth.all]
  | cons value rest ih =>
    rw [List.forall_mem_cons, ← ih]
    rcases value with _ | _ | _ <;> rcases hr : Truth.all rest with _ | _ | _ <;>
      simp [Truth.all, hr]

theorem any_eq_true {values : List Truth} :
    Truth.any values = some true ↔ ∃ value ∈ values, value = some true := by
  induction values with
  | nil => simp [Truth.any]
  | cons value rest ih =>
    simp only [List.mem_cons, exists_eq_or_imp, ← ih]
    rcases value with _ | _ | _ <;> rcases hr : Truth.any rest with _ | _ | _ <;>
      simp [Truth.any, hr]

theorem any_eq_false {values : List Truth} :
    Truth.any values = some false ↔ ∀ value ∈ values, value = some false := by
  induction values with
  | nil => simp [Truth.any]
  | cons value rest ih =>
    rw [List.forall_mem_cons, ← ih]
    rcases value with _ | _ | _ <;> rcases hr : Truth.any rest with _ | _ | _ <;>
      simp [Truth.any, hr]

end Truth

/-! ## What filters say -/

namespace Column

/-- The type that a column has in the table of its model. -/
def type (column : Column) : ColumnType := column.kind.columnType

/-- Whether a cell stands in a relation to a value, by the order of the database and under the
affinity of the column. -/
def relates (column : Column) (relation : Relation) (cell : SqlValue) (value : Json) : Bool :=
  relation.holds (cell.order ((column.operand value).comparable (some column.type)))

end Column

namespace Condition

/-- Whether an empty cell meets a condition. -/
def holdsOfEmpty (c : Condition) : Bool :=
  match c.comparison, c.value with
  | .equal, value => value.isNull
  | .notEqual, value => !value.isNull
  | .oneOf, .array items => items.any Json.isNull
  | .noneOf, .array items => !items.any Json.isNull
  | _, _ => false

/-- Whether a cell that is not empty meets a condition on its column. -/
def holdsOfFull (c : Condition) (column : Column) (cell : SqlValue) : Bool :=
  match c.comparison, c.value with
  | .equal, value => !value.isNull && column.relates .equal cell value
  | .notEqual, value => value.isNull || column.relates .notEqual cell value
  | .greater, value => column.relates .greater cell value
  | .atLeast, value => column.relates .atLeast cell value
  | .less, value => column.relates .less cell value
  | .atMost, value => column.relates .atMost cell value
  | .oneOf, .array items => items.any fun item => !item.isNull && column.relates .equal cell item
  | .noneOf, .array items => !items.any fun item => !item.isNull && column.relates .equal cell item
  | _, _ => false

/-- Whether the cell of its column meets a condition. -/
def meaning (c : Condition) (column : Column) (cell : SqlValue) : Bool :=
  if cell = .null then c.holdsOfEmpty else c.holdsOfFull column cell

end Condition

/-- The column of a model with a given name, and its cell in a row of the table of the model. -/
def Model.cell? (m : Model) (row : Row) (name : String) : Option (Column × SqlValue) :=
  (m.columns.zip (.integer row.id :: row.cells)).find? (·.1.name = name)

namespace Filter

mutual

/-- Whether a filter holds of a row. -/
def meaning (m : Model) (row : Row) : Filter → Bool
  | .all parts => (meanings m row parts).all id
  | .any parts => parts.isEmpty || (meanings m row parts).any id
  | .condition c =>
    match m.cell? row c.column with
    | some (column, cell) => c.meaning column cell
    | none => false

/-- Whether each of several filters holds of a row. -/
def meanings (m : Model) (row : Row) : List Filter → List Bool
  | [] => []
  | part :: rest => meaning m row part :: meanings m row rest

end

theorem meanings_length {m : Model} {row : Row} (parts : List Filter) :
    (meanings m row parts).length = parts.length := by
  induction parts with
  | nil => rfl
  | cons part rest ih => rw [meanings, List.length_cons, ih, List.length_cons]

mutual

/-- What restricts nothing holds of every row. -/
theorem meaning_of_isUnrestricted {m : Model} {row : Row} :
    ∀ {f : Filter}, f.isUnrestricted = true → f.meaning m row = true
  | .all parts, h => by
    rw [isUnrestricted] at h
    rw [meaning]
    exact meanings_of_allUnrestricted h
  | .any parts, h => by
    rw [isUnrestricted, Bool.or_eq_true] at h
    rw [meaning, Bool.or_eq_true]
    exact h.imp_right meanings_of_anyUnrestricted
  | .condition _, h => by simp [isUnrestricted] at h

theorem meanings_of_allUnrestricted {m : Model} {row : Row} :
    ∀ {parts : List Filter}, allUnrestricted parts = true → (meanings m row parts).all id = true
  | [], _ => rfl
  | part :: rest, h => by
    rw [allUnrestricted, Bool.and_eq_true] at h
    rw [meanings, List.all_cons, Bool.and_eq_true]
    exact ⟨meaning_of_isUnrestricted h.1, meanings_of_allUnrestricted h.2⟩

theorem meanings_of_anyUnrestricted {m : Model} {row : Row} :
    ∀ {parts : List Filter}, anyUnrestricted parts = true → (meanings m row parts).any id = true
  | [], h => by simp [anyUnrestricted] at h
  | part :: rest, h => by
    rw [anyUnrestricted, Bool.or_eq_true] at h
    rw [meanings, List.any_cons, Bool.or_eq_true]
    exact h.imp meaning_of_isUnrestricted meanings_of_anyUnrestricted

end

end Filter

/-! ## What clauses say -/

theorem Json.isNull_iff {value : Json} : value.isNull = true ↔ value = .null := by
  cases value <;> simp [Json.isNull]

theorem SqlValue.ofJson_eq_null {value : Json} : SqlValue.ofJson value = .null ↔ value = .null := by
  cases value with
  | number n =>
    simp only [SqlValue.ofJson, SqlValue.ofNumber]
    split <;> simp
  | null => simp [SqlValue.ofJson]
  | bool b => simp [SqlValue.ofJson, SqlValue.ofBool]
  | string s => simp [SqlValue.ofJson]
  | array items => simp [SqlValue.ofJson]
  | object members => simp [SqlValue.ofJson]

namespace Column

/-- The parameters that stand for the items of a list other than `null`. -/
def operands (column : Column) (items : List Json) : List SqlValue :=
  (items.filter (¬ ·.isNull)).map column.operand

theorem operands_eq_nil {column : Column} {items : List Json} :
    column.operands items = [] ↔ ∀ item ∈ items, item.isNull = true := by
  simp [operands]

theorem operand_eq_null {column : Column} {value : Json} :
    column.operand value = .null ↔ value = .null := by
  unfold operand
  split
  · simp
  next hv => simpa using hv
  next => rw [SqlValue.ofJson_eq_null]

/-- Comparing a cell with a value that is not `null` is unknown only if the cell is empty. -/
theorem compareCell_operand {column : Column} {cell : SqlValue} {value : Json}
    {relation : Relation} (hv : value ≠ .null) :
    (cell.compareCell (some column.type) (column.operand value)).map relation.holds =
      if cell = .null then none else some (column.relates relation cell value) := by
  unfold SqlValue.compareCell relates
  by_cases hc : cell = .null
  · simp [hc]
  · simp [hc, operand_eq_null, hv]

end Column

namespace Clause

theorem partsHold_eq_map {t : Table} {row : Row} (parts : List Clause) :
    partsHold t row parts = parts.map (holds t row) := by
  induction parts with
  | nil => rfl
  | cons part rest ih => rw [partsHold, ih, List.map_cons]

variable {t : Table} {row : Row}

@[simp] theorem selects_none : selects none t row = true := rfl

theorem selects_some {clause : Clause} :
    selects (some clause) t row = true ↔ clause.holds t row = some true := by simp [selects]

theorem all_selects {parts : List Clause} :
    selects (some (.all parts)) t row = parts.all fun part => selects (some part) t row := by
  rw [Bool.eq_iff_iff, selects_some, holds, partsHold_eq_map, Truth.all_eq_true]
  simp [selects]

theorem any_selects {parts : List Clause} :
    selects (some (.any parts)) t row = parts.any fun part => selects (some part) t row := by
  rw [Bool.eq_iff_iff, selects_some, holds, partsHold_eq_map, Truth.any_eq_true]
  simp [selects]

/-- A single clause stands for itself, and no clause for no restriction. -/
theorem joined_all_selects (parts : List Clause) :
    selects (joined .all parts) t row = parts.all fun part => selects (some part) t row := by
  match parts with
  | [] => rfl
  | [part] => simp [joined]
  | first :: second :: rest => exact all_selects

theorem joined_any_selects (parts : List Clause) :
    selects (joined .any parts) t row =
      (parts.isEmpty || parts.any fun part => selects (some part) t row) := by
  match parts with
  | [] => rfl
  | [part] => simp [joined]
  | first :: second :: rest => exact any_selects

/-- Being among values is never unknown for a cell that is not empty. -/
theorem isAmong_operands {column : Column} {cell : SqlValue} (hc : cell ≠ .null)
    (items : List Json) :
    isAmong (some column.type) cell (column.operands items) =
      some (items.any fun item => !item.isNull && column.relates .equal cell item) := by
  have hvalues : (column.operands items).map (fun operand =>
      (cell.compareCell (some column.type) operand).map (decide <| · = .eq)) =
      ((items.filter (¬ ·.isNull)).map (column.relates .equal cell)).map some := by
    rw [Column.operands, List.map_map, List.map_map]
    apply List.map_congr_left
    intro item hitem
    have hv : item ≠ .null := by
      rintro rfl
      simp [Json.isNull] at hitem
    have hcompare : (cell.compareCell (some column.type) (column.operand item)).map
        Relation.equal.holds = _ := Column.compareCell_operand hv
    rwa [if_neg hc] at hcompare
  rw [isAmong, hvalues]
  cases h : items.any fun item => !item.isNull && column.relates .equal cell item with
  | true =>
    obtain ⟨item, hitem, hi⟩ := List.any_eq_true.mp h
    refine Truth.any_eq_true.mpr ⟨some true, ?_, rfl⟩
    simp only [List.map_map, List.mem_map, List.mem_filter]
    exact ⟨item, ⟨hitem, by simp_all⟩, by simp_all⟩
  | false =>
    apply Truth.any_eq_false.mpr
    intro value hvalue
    simp only [List.map_map, List.mem_map, List.mem_filter] at hvalue
    obtain ⟨item, ⟨hitem, hn⟩, rfl⟩ := hvalue
    have hi := List.any_eq_false.mp h item hitem
    simp_all

/-- An empty cell is not known to be among any values, nor not to be among them. -/
theorem isAmong_null {type : Option ColumnType} {operands : List SqlValue} (h : operands ≠ []) :
    isAmong type .null operands = none := by
  obtain ⟨operand, hmem⟩ := List.exists_mem_of_ne_nil operands h
  rcases hr : isAmong type .null operands with _ | _ | _
  · rfl
  · have hfalse := Truth.any_eq_false.mp hr _ (List.mem_map_of_mem hmem)
    simp [SqlValue.compareCell] at hfalse
  · obtain ⟨value, hvalue, rfl⟩ := Truth.any_eq_true.mp hr
    simp [SqlValue.compareCell] at hvalue

end Clause

theorem Condition.membership_eq (column : Column) (negated : Bool) (items : List Json) :
    membership column negated items =
      if items = [] then .constant negated
      else if column.operands items = [] then
        if negated then .isNotNull column.name else .isNull column.name
      else match negated, items.any Json.isNull with
        | true, true =>
          .all [.noneOf column.name (column.operands items), .isNotNull column.name]
        | true, false => .any [.noneOf column.name (column.operands items), .isNull column.name]
        | false, true => .any [.oneOf column.name (column.operands items), .isNull column.name]
        | false, false => .oneOf column.name (column.operands items) := rfl

/-! ## Conditions on a column

Throughout this section `cell` is what the name of `column` denotes in a row. -/

section
variable {t : Table} {row : Row} {column : Column} {cell : SqlValue}
variable (hread : t.read row column.name = (some column.type, cell))
include hread

namespace Clause

theorem isNull_selects : selects (some (.isNull column.name)) t row = decide (cell = .null) := by
  simp [selects, holds, hread]

theorem isNotNull_selects :
    selects (some (.isNotNull column.name)) t row = decide (cell ≠ .null) := by
  simp [selects, holds, hread]

theorem compare_selects {value : Json} (hv : value ≠ .null) (relation : Relation) :
    selects (some (.compare column.name relation (column.operand value))) t row =
      (decide (cell ≠ .null) && column.relates relation cell value) := by
  simp only [selects, holds, hread, Column.compareCell_operand hv]
  by_cases hc : cell = .null <;> simp [hc]

variable {items : List Json} (hitems : column.operands items ≠ [])
include hitems

theorem oneOf_selects :
    selects (some (.oneOf column.name (column.operands items))) t row =
      (decide (cell ≠ .null) &&
        items.any fun item => !item.isNull && column.relates .equal cell item) := by
  simp only [selects, holds, hread]
  by_cases hc : cell = .null
  · simp [hc, isAmong_null hitems]
  · rw [isAmong_operands hc]
    generalize items.any _ = among
    cases among <;> simp [hc]

theorem noneOf_selects :
    selects (some (.noneOf column.name (column.operands items))) t row =
      (decide (cell ≠ .null) &&
        !items.any fun item => !item.isNull && column.relates .equal cell item) := by
  simp only [selects, holds, hread]
  by_cases hc : cell = .null
  · simp [hc, isAmong_null hitems, Truth.not]
  · rw [isAmong_operands hc]
    generalize items.any _ = among
    cases among <;> simp [hc, Truth.not]

end Clause

namespace Condition

/-- Membership in a list, with the part that an empty cell plays in it. -/
theorem membership_meaning (name : String) (negated : Bool) (items : List Json) :
    Clause.selects (some (membership column negated items)) t row =
      (⟨name, if negated then .noneOf else .oneOf, .array items⟩ : Condition).meaning
        column cell := by
  rw [membership_eq]
  by_cases hempty : items = []
  · subst hempty
    cases negated <;> simp [Clause.selects, Clause.holds, meaning, holdsOfEmpty, holdsOfFull]
  by_cases hitems : column.operands items = []
  · -- Only `null` is in the list, so the cells that are not empty are apart from all items.
    have hall := Column.operands_eq_nil.mp hitems
    have hnull : items.any Json.isNull = true := by
      obtain ⟨item, hitem⟩ := List.exists_mem_of_ne_nil items hempty
      exact List.any_eq_true.mpr ⟨item, hitem, hall item hitem⟩
    have hnone : (items.any fun item => !item.isNull && column.relates .equal cell item) = false :=
      List.any_eq_false.mpr fun item hitem => by simp [hall item hitem]
    simp only [hempty, hitems, if_true, if_false]
    cases negated with
    | true =>
      rw [if_pos rfl, Clause.isNotNull_selects hread]
      by_cases hc : cell = .null <;> simp [hc, meaning, holdsOfEmpty, holdsOfFull, hnull, hnone]
    | false =>
      rw [if_neg Bool.false_ne_true, Clause.isNull_selects hread]
      by_cases hc : cell = .null <;> simp [hc, meaning, holdsOfEmpty, holdsOfFull, hnull, hnone]
  · simp only [hempty, hitems, if_false]
    have hone := Clause.oneOf_selects hread hitems
    have hnone := Clause.noneOf_selects hread hitems
    have hnull := Clause.isNull_selects hread
    have hnotNull := Clause.isNotNull_selects hread
    cases negated <;> cases hn : items.any Json.isNull <;>
      simp only [Clause.any_selects, Clause.all_selects, List.any_cons, List.any_nil, List.all_cons,
        List.all_nil, hone, hnone, hnull, hnotNull] <;>
      by_cases hc : cell = .null <;> simp [hc, meaning, holdsOfEmpty, holdsOfFull, hn]

/-- The clause of a comparison with a value other than `null`. -/
theorem relate_meaning {c : Condition} {relation : Relation} {clause : Clause}
    (h : c.relate column relation = .ok clause) :
    Clause.selects (some clause) t row =
      (decide (cell ≠ .null) && column.relates relation cell c.value) := by
  unfold relate at h
  split at h
  · cases h
  next hv =>
    cases h
    exact Clause.compare_selects hread (fun hnull => hv (Json.isNull_iff.mpr hnull)) relation

theorem clauseOn_meaning {c : Condition} {clause : Clause} (h : c.clauseOn column = .ok clause) :
    Clause.selects (some clause) t row = c.meaning column cell := by
  obtain ⟨name, comparison, value⟩ := c
  cases comparison with
  | equal =>
    simp only [clauseOn, Except.ok.injEq] at h
    subst h
    by_cases hv : value.isNull
    · rw [if_pos hv, Clause.isNull_selects hread]
      by_cases hc : cell = .null <;> simp [hc, meaning, holdsOfEmpty, holdsOfFull, hv]
    · rw [if_neg hv, Clause.compare_selects hread fun hnull => hv (Json.isNull_iff.mpr hnull)]
      by_cases hc : cell = .null <;> simp [hc, meaning, holdsOfEmpty, holdsOfFull, hv]
  | notEqual =>
    simp only [clauseOn, Except.ok.injEq] at h
    subst h
    by_cases hv : value.isNull
    · rw [if_pos hv, Clause.isNotNull_selects hread]
      by_cases hc : cell = .null <;> simp [hc, meaning, holdsOfEmpty, holdsOfFull, hv]
    · rw [if_neg hv, Clause.any_selects]
      simp only [List.any_cons, List.any_nil, Clause.isNull_selects hread,
        Clause.compare_selects hread fun hnull => hv (Json.isNull_iff.mpr hnull)]
      by_cases hc : cell = .null <;> simp [hc, meaning, holdsOfEmpty, holdsOfFull, hv]
  | greater | atLeast | less | atMost =>
    rw [relate_meaning hread h]
    by_cases hc : cell = .null <;> simp [hc, meaning, holdsOfEmpty, holdsOfFull]
  | oneOf | noneOf =>
    simp only [clauseOn] at h
    split at h
    next items =>
      cases h
      exact membership_meaning hread name _ items
    next => cases h

end Condition

end

/-! ## Filters -/

theorem columnSpec_eq_ok {f : Field} {spec : ColumnSpec} (h : Model.columnSpec f = .ok spec) :
    spec.name = f.name ∧ spec.type = f.kind.columnType := by
  simp only [Model.columnSpec, bind_eq_ok, Except.ok.injEq] at h
  obtain ⟨_, _, rfl⟩ := h
  exact ⟨rfl, rfl⟩

theorem lookup?_mem {name : String} {specs : List ColumnSpec} {cells : List SqlValue}
    {found : ColumnType × SqlValue} (h : Table.lookup? name specs cells = some found) :
    ∃ spec ∈ specs, sameName spec.name name := by
  induction specs generalizing cells with
  | nil => simp [Table.lookup?] at h
  | cons spec rest ih =>
    cases cells with
    | nil => simp [Table.lookup?] at h
    | cons cell cells =>
      rw [Table.lookup?] at h
      split at h
      next hn => exact ⟨spec, List.mem_cons_self, hn⟩
      next =>
        obtain ⟨other, ho, hn⟩ := ih h
        exact ⟨other, List.mem_cons_of_mem _ ho, hn⟩

/-- Names of columns that differ without regard to case are found by their exact spelling. -/
theorem lookup?_of_find? {name : String} {column : Column} {cell : SqlValue} {fields : List Field}
    {specs : List ColumnSpec} {cells : List SqlValue}
    (hspecs : fields.mapM Model.columnSpec = .ok specs)
    (hd : specs.Pairwise fun a b => sameName a.name b.name = false)
    (h : ((fields.map Column.field).zip cells).find? (·.1.name = name) = some (column, cell)) :
    Table.lookup? name specs cells = some (column.type, cell) := by
  induction fields generalizing specs cells with
  | nil => simp at h
  | cons f rest ih =>
    simp only [List.mapM_cons, bind_eq_ok, pure, Except.pure, Except.ok.injEq] at hspecs
    obtain ⟨spec, hspec, specs, hspecs, rfl⟩ := hspecs
    obtain ⟨hname, htype⟩ := columnSpec_eq_ok hspec
    obtain ⟨hhead, htail⟩ := List.pairwise_cons.mp hd
    cases cells with
    | nil => simp at h
    | cons first cells =>
      rw [List.map_cons, List.zip_cons_cons, List.find?_cons] at h
      split at h
      next hn =>
        obtain ⟨rfl, rfl⟩ := Prod.mk.inj (Option.some.inj h)
        have heq : spec.name = name := hname.trans (of_decide_eq_true hn)
        rw [Table.lookup?, heq, sameName_self, if_pos rfl, htype]
        rfl
      next =>
        have hfound := ih hspecs htail h
        obtain ⟨other, ho, hother⟩ := lookup?_mem hfound
        rw [Table.lookup?, ← sameName_comm name, ← sameName_congr hother, sameName_comm,
          hhead other ho, if_neg Bool.false_ne_true, hfound]

theorem find?_zip {α β : Type} {p : α → Bool} {as : List α} {bs : List β} {a : α}
    (h : as.find? p = some a) (hlen : as.length ≤ bs.length) :
    ∃ b, (as.zip bs).find? (p ·.1) = some (a, b) := by
  induction as generalizing bs with
  | nil => simp at h
  | cons first rest ih =>
    cases bs with
    | nil => simp at hlen
    | cons b bs =>
      simp only [List.find?_cons, List.zip_cons_cons] at h ⊢
      cases hp : p first with
      | true =>
        simp only [hp, Option.some.injEq] at h
        exact ⟨b, by simp [h]⟩
      | false =>
        simp only [hp] at h
        exact ih h (by simpa using hlen)

section
variable {m : Model} {t : Table} {row : Row}

/-- The name of a column denotes the cell at the place of the column. -/
theorem read_cell? (ht : m.OwnTable t) {name : String} {column : Column} {cell : SqlValue}
    (h : m.cell? row name = some (column, cell)) :
    t.read row column.name = (some column.type, cell) := by
  have hname : column.name = name := by simpa using List.find?_some h
  obtain ⟨hid, hd⟩ := ht.distinct
  rw [Model.cell?, Model.columns, List.zip_cons_cons, List.find?_cons] at h
  split at h
  · obtain ⟨rfl, rfl⟩ := Prod.mk.inj (Option.some.inj h)
    rfl
  · have hfound := lookup?_of_find? ht.columns hd h
    obtain ⟨spec, hspec, hsame⟩ := lookup?_mem hfound
    have hn : isIdName column.name = false := by
      rw [hname, isIdName, ← sameName_congr hsame]
      exact hid spec hspec
    rw [Table.read, hn, if_neg Bool.false_ne_true, hname, hfound]

theorem resolve_eq_ok {name : String} {column : Column} :
    m.resolve name = .ok column ↔ m.column? name = some column := by
  unfold Model.resolve
  cases m.column? name with
  | none => simp
  | some found => simp

/-- Every column of a model has a cell in every row of the table of the model. -/
theorem cell?_of_resolve (ht : m.OwnTable t) (hrow : row ∈ t.rows) {name : String} {column : Column}
    (h : m.resolve name = .ok column) : ∃ cell, m.cell? row name = some (column, cell) := by
  apply find?_zip (resolve_eq_ok.mp h)
  have hshape := ht.shaped row hrow
  have hlen := mapM_length ht.columns
  simp only [Model.columns, List.length_cons, List.length_map]
  omega

/-- What a list of clauses selects, part by part. -/
def selections (t : Table) (row : Row) (clauses : List (Option Clause)) : List Bool :=
  clauses.map fun clause => Clause.selects clause t row

theorem conjunction_selects (clauses : List (Option Clause)) :
    Clause.selects (Clause.joined .all (clauses.filterMap id)) t row =
      (selections t row clauses).all id := by
  rw [Clause.joined_all_selects, selections, List.all_map]
  induction clauses with
  | nil => rfl
  | cons clause rest ih =>
    cases clause with
    | none => simpa using ih
    | some clause =>
      rw [List.filterMap_cons_some (rfl : id (some clause) = _), List.all_cons, List.all_cons, ih]
      rfl

theorem disjunction_selects (clauses : List (Option Clause)) :
    Clause.selects (if clauses.any Option.isNone then none
      else Clause.joined .any (clauses.filterMap id)) t row =
      (clauses.isEmpty || (selections t row clauses).any id) := by
  by_cases hnone : clauses.any Option.isNone
  · obtain ⟨clause, hmem, hc⟩ := List.any_eq_true.mp hnone
    rw [if_pos hnone, Clause.selects_none, eq_comm, Bool.or_eq_true]
    refine .inr (List.any_eq_true.mpr ⟨true, List.mem_map.mpr ⟨clause, hmem, ?_⟩, rfl⟩)
    rw [Option.isNone_iff_eq_none.mp hc, Clause.selects_none]
  · rw [if_neg hnone, Clause.joined_any_selects, selections, List.any_map]
    simp only [List.any_eq_true, not_exists, not_and, Option.isNone_iff_eq_none] at hnone
    congr 1
    · cases clauses with
      | nil => rfl
      | cons clause rest =>
        obtain ⟨c, hc⟩ := Option.ne_none_iff_exists'.mp (hnone clause List.mem_cons_self)
        simp [hc]
    · induction clauses with
      | nil => rfl
      | cons clause rest ih =>
        obtain ⟨c, rfl⟩ := Option.ne_none_iff_exists'.mp (hnone clause List.mem_cons_self)
        have hrest := ih fun other ho => hnone other (List.mem_cons_of_mem _ ho)
        rw [List.filterMap_cons_some (rfl : id (some c) = _), List.any_cons, List.any_cons, hrest]
        rfl

mutual

/-- The clause of a filter is true of exactly the rows that the filter holds of. The induction goes
along the tree; a part without a clause selects every row, which is what it means. -/
theorem compile_meaning (ht : m.OwnTable t) (hrow : row ∈ t.rows) :
    ∀ {f : Filter} {clause : Option Clause}, m.compile f = .ok clause →
      Clause.selects clause t row = f.meaning m row
  | .all parts, clause, h => by
    simp only [Model.compile, bind_eq_ok, Except.ok.injEq] at h
    obtain ⟨clauses, hc, rfl⟩ := h
    rw [conjunction_selects, compileParts_meanings ht hrow hc, Filter.meaning]
  | .any parts, clause, h => by
    simp only [Model.compile, bind_eq_ok, Except.ok.injEq] at h
    obtain ⟨clauses, hc, rfl⟩ := h
    have hparts := compileParts_meanings ht hrow hc
    have hempty : clauses.isEmpty = parts.isEmpty := by
      have hlen := congrArg List.length hparts
      rw [selections, List.length_map, Filter.meanings_length] at hlen
      rw [Bool.eq_iff_iff, List.isEmpty_iff_length_eq_zero, List.isEmpty_iff_length_eq_zero, hlen]
    rw [disjunction_selects, hparts, hempty, Filter.meaning]
  | .condition c, clause, h => by
    simp only [Model.compile, bind_eq_ok, map_eq_ok] at h
    obtain ⟨column, hcolumn, clause, hc, rfl⟩ := h
    obtain ⟨cell, hcell⟩ := cell?_of_resolve ht hrow hcolumn
    rw [Condition.clauseOn_meaning (read_cell? ht hcell) hc, Filter.meaning, hcell]

theorem compileParts_meanings (ht : m.OwnTable t) (hrow : row ∈ t.rows) :
    ∀ {parts : List Filter} {clauses : List (Option Clause)}, m.compileParts parts = .ok clauses →
      selections t row clauses = Filter.meanings m row parts
  | [], clauses, h => by
    simp only [Model.compileParts, Except.ok.injEq] at h
    rw [← h, Filter.meanings]
    rfl
  | part :: rest, clauses, h => by
    simp only [Model.compileParts, bind_eq_ok, Except.ok.injEq] at h
    obtain ⟨clause, hc, clauses, hcs, rfl⟩ := h
    rw [Filter.meanings, ← compile_meaning ht hrow hc, ← compileParts_meanings ht hrow hcs]
    rfl

end

/-- The condition of a statement selects exactly the rows that its filter holds of. -/
theorem restriction_meaning (ht : m.OwnTable t) (hrow : row ∈ t.rows) {f : Filter}
    {clause : Option Clause} (h : m.restriction (some f) = .ok clause) :
    Clause.selects clause t row = f.meaning m row := by
  simp only [Model.restriction] at h
  split at h
  next hu =>
    rw [← Except.ok.inj h, Clause.selects_none, Filter.meaning_of_isUnrestricted hu]
  next => exact compile_meaning ht hrow h

end

end RecordStore
