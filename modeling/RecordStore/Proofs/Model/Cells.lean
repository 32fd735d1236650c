import RecordStore.Proofs.Query.Meaning
import RecordStore.Proofs.Number.Exact

/-!
# Cells of fields

What a field of each kind stores. A value that a field takes is stored as a cell of its kind: an
integer, a finite double, a text, a truth value, or the text of a JSON value. A condition that asks
for equality with the value finds exactly the cells that are the same as the one that the value is
stored in. There is one exception: a number of a field of doubles that is compared as an integer,
because it fits a signed word, but that no double equals. It is found nowhere.
-/

namespace RecordStore

/-- The cells that fields of a kind store, apart from the empty one. JSON values are among those
that `good` admits. -/
inductive FieldKind.Cell (good : Json → Prop) : FieldKind → SqlValue → Prop
  | int (n : Int64) : Cell good .int (.integer n)
  | float {x : Binary64} (h : x.normalized = x) : Cell good .float (.real (.finite x))
  | text (s : String) : Cell good .text (.text s)
  | bool (b : Bool) : Cell good .bool (.ofBool b)
  | json {value : Json} (h : good value) (hn : value ≠ .null) : Cell good .json (.text value.text)

/-- What a field may hold: an empty cell if it takes `null`, or a cell of its kind. -/
def Field.Holds (good : Json → Prop) (f : Field) (cell : SqlValue) : Prop :=
  cell = .null ∧ f.nullable = true ∨ f.kind.Cell good cell

theorem SqlValue.stored_null (type : ColumnType) : SqlValue.null.stored type = .null := by
  cases type <;> rfl

namespace FieldKind

variable {good : Json → Prop} {kind : FieldKind} {value : Json} {cell : SqlValue}

theorem Cell.ne_null (h : kind.Cell good cell) : cell ≠ .null := by
  cases h <;> exact nofun

/-- A cell of a kind is stored as it is. -/
theorem Cell.stored (h : kind.Cell good cell) : cell.stored kind.columnType = cell := by
  cases h with
  | int | text | json => rfl
  | bool b => cases b <;> rfl
  | float h => exact congrArg (fun x => SqlValue.real (.finite x)) h

/-- A value that a kind takes is stored as a cell of the kind. -/
theorem cell_of_encode? (hv : value ≠ .null) (hgood : kind = .json → good value)
    (h : kind.encode? value = some cell) : kind.Cell good (cell.stored kind.columnType) := by
  cases kind with
  | int =>
    cases value with
    | number n =>
      obtain ⟨i, _, rfl⟩ := Option.map_eq_some_iff.mp h
      exact .int i
    | _ => cases h
  | float =>
    cases value with
    | number n =>
      obtain ⟨x, hx⟩ := n.toDouble_finite
      simp only [encode?, hx, Option.some.injEq] at h
      subst h
      exact .float x.normalized_normalized
    | _ => cases h
  | text =>
    cases value with
    | string s =>
      cases h
      exact .text s
    | _ => cases h
  | bool =>
    cases value with
    | bool b =>
      cases h
      have hcell : FieldKind.bool.Cell good (.ofBool b) := .bool b
      exact hcell.stored.symm ▸ hcell
    | _ => cases h
  | json =>
    cases h
    exact .json (hgood rfl) hv

/-- Whether equality with a value finds the value where it is stored. It does not find a number that
is compared as an integer but stored as another number. -/
def Found (kind : FieldKind) (value : Json) : Prop :=
  kind = .float → ∀ n h, value = .number (.integer n h) → FitsInt64 n → (Number.integer n h).Exact

theorem found_of_ne (h : kind ≠ .float) (value : Json) : kind.Found value := fun heq => absurd heq h

end FieldKind

/-! ## Equality -/

namespace SqlValue

theorem order_integer {a b : Int64} : order (.integer a) (.integer b) = .eq ↔ a = b := by
  rw [order, Std.LawfulEqCmp.compare_eq_iff_eq, Int64.toInt_inj]

theorem order_text {a b : String} : order (.text a) (.text b) = .eq ↔ a = b := by
  rw [order, Std.LawfulEqCmp.compare_eq_iff_eq]

theorem order_real {x y : Binary64} :
    order (.real (.finite x)) (.real (.finite y)) = .eq ↔ x.signedUnits = y.signedUnits := by
  rw [order, Double.compareValue, Std.LawfulEqCmp.compare_eq_iff_eq]

theorem order_real_integer {x : Binary64} {n : Int64} :
    order (.real (.finite x)) (.integer n) = .eq ↔
      x.signedUnits = n.toInt * Binary64.unitsInOne := by
  rw [order, Ordering.swap_eq_eq, Double.compareInt, Std.LawfulEqCmp.compare_eq_iff_eq, eq_comm]

end SqlValue

theorem fitsInt64_toInt (n : Int64) : FitsInt64 n.toInt := by
  have hlow := n.le_toInt
  have hhigh := n.toInt_lt
  unfold FitsInt64
  omega

theorem toInt_ofInt_of_fits {n : Int} (h : FitsInt64 n) : (Int64.ofInt n).toInt = n := by
  unfold FitsInt64 at h
  exact Int64.toInt_ofInt_of_le (by omega) (by omega)

namespace Column

variable {good : Json → Prop} {column : Column} {value : Json} {cell given : SqlValue}

theorem relates_equal : column.relates .equal cell value = true ↔
    cell.order ((column.operand value).comparable (some column.type)) = .eq := by
  rw [relates, Relation.holds, decide_eq_true_eq]

/-- Equality of a double with a number: with the integer if the number is kept as one, and otherwise
with the double next to the number. -/
theorem relates_float (hk : column.kind = .float) (x : Binary64) (n : Number) :
    column.relates .equal (.real (.finite x)) (.number n) = true ↔
      match n.toInt64? with
      | some i => x.signedUnits = i.toInt * Binary64.unitsInOne
      | none => ∃ y, n.toDouble = .finite y ∧ x.signedUnits = y.signedUnits := by
  have htype : column.type = .real := by
    rw [type, hk]
    rfl
  have hoperand : column.operand (.number n) = SqlValue.ofNumber n := by
    simp only [operand, hk]
    rfl
  rw [relates_equal, htype, hoperand, SqlValue.ofNumber]
  cases n.toInt64? with
  | some i => exact SqlValue.order_real_integer
  | none =>
    obtain ⟨y, hy⟩ := n.toDouble_finite
    simp only [hy]
    constructor
    · exact fun h => ⟨y, rfl, SqlValue.order_real.mp h⟩
    · rintro ⟨_, ⟨⟩, h⟩
      exact SqlValue.order_real.mpr h

/-- Equality of a double with a number says that the double is the one next to the number, and that
the number is found there. -/
theorem relates_float_iff (hk : column.kind = .float) {x y : Binary64} {n : Number}
    (hy : n.toDouble = .finite y) : column.relates .equal (.real (.finite x)) (.number n) = true ↔
      x.signedUnits = y.signedUnits ∧ column.kind.Found (.number n) := by
  rw [relates_float hk]
  cases n with
  | float z =>
    have hfound : column.kind.Found (.number (.float z)) := fun _ _ _ heq => nomatch heq
    constructor
    · rintro ⟨_, hfinite, hx⟩
      cases hy.symm.trans hfinite
      exact ⟨hx, hfound⟩
    · exact fun h => ⟨y, hy, h.1⟩
  | integer n h =>
    have hn : Double.ofInt n = .finite y := hy
    have hcompare := Double.compareInt_ofInt h
    rw [hn, Double.compareInt, Std.LawfulEqCmp.compare_eq_iff_eq] at hcompare
    by_cases hfits : FitsInt64 n
    · simp only [Number.toInt64?, if_pos hfits, toInt_ofInt_of_fits hfits]
      constructor
      · intro hx
        have hexact : (Number.integer n h).Exact := ⟨x, hx⟩
        refine ⟨hx.trans (hcompare.mpr hexact), fun _ n' h' hsame _ => ?_⟩
        cases hsame
        exact hexact
      · rintro ⟨hx, hfound⟩
        exact hx.trans (hcompare.mpr (hfound hk n h rfl hfits)).symm
    · simp only [Number.toInt64?, if_neg hfits]
      constructor
      · rintro ⟨_, hfinite, hx⟩
        cases hn.symm.trans hfinite
        refine ⟨hx, fun _ n' h' hsame hfits' => ?_⟩
        cases hsame
        exact absurd hfits' hfits
      · exact fun h => ⟨y, hy, h.1⟩

/-- Equality with a value that a column takes holds of the cell that the value is stored in and of no
other, and of none if the value is not found. -/
theorem relates_equal_iff (hcell : column.kind.Cell good cell) (hv : value ≠ .null)
    (h : column.kind.encode? value = some given) : column.relates .equal cell value = true ↔
      cell = given.stored column.type ∧ column.kind.Found value := by
  have hother (hne : column.kind ≠ .float) {p : Prop} : p ↔ p ∧ column.kind.Found value :=
    (and_iff_left (FieldKind.found_of_ne hne value)).symm
  obtain ⟨kind, hk⟩ : ∃ kind, column.kind = kind := ⟨_, rfl⟩
  have htype : column.type = kind.columnType := congrArg FieldKind.columnType hk
  rw [hk] at hcell h
  cases hcell with
  | @float x hx =>
    cases value with
    | number n =>
      obtain ⟨y, hy⟩ := n.toDouble_finite
      simp only [FieldKind.encode?, hy, Option.some.injEq] at h
      subst h
      have hstored : (SqlValue.real (.finite y)).stored .real = .real (.finite y.normalized) := rfl
      rw [relates_float_iff hk hy, htype, FieldKind.columnType, hstored, SqlValue.real.injEq,
        Double.finite.injEq, ← Binary64.normalized_eq_iff, hx]
    | _ => cases h
  | int a =>
    cases value with
    | number n =>
      obtain ⟨i, hi, rfl⟩ := Option.map_eq_some_iff.mp h
      have hoperand : column.operand (.number n) = .integer i := by
        simp only [operand, hk, SqlValue.ofJson, SqlValue.ofNumber, hi]
      rw [← hother (by rw [hk]; decide), relates_equal, hoperand, htype]
      exact SqlValue.order_integer.trans (SqlValue.integer.injEq a i).symm.to_iff
    | _ => cases h
  | bool a =>
    cases value with
    | bool b =>
      cases h
      have hoperand : column.operand (.bool b) = .ofBool b := by
        simp only [operand, hk, SqlValue.ofJson]
      rw [← hother (by rw [hk]; decide), relates_equal, hoperand, htype]
      cases a <;> cases b <;> decide
    | _ => cases h
  | text a =>
    cases value with
    | string b =>
      cases h
      have hoperand : column.operand (.string b) = .text b := by
        simp only [operand, hk, SqlValue.ofJson]
      rw [← hother (by rw [hk]; decide), relates_equal, hoperand, htype]
      exact SqlValue.order_text.trans (SqlValue.text.injEq a b).symm.to_iff
    | _ => cases h
  | @json a =>
    cases h
    have hoperand : column.operand value = .text value.text := by
      cases value <;> simp only [operand, hk]
      exact absurd rfl hv
    rw [← hother (by rw [hk]; decide), relates_equal, hoperand, htype]
    exact SqlValue.order_text.trans (SqlValue.text.injEq _ _).symm.to_iff

end Column

end RecordStore
