import RecordStore.Proofs.Database.Rank
import RecordStore.Proofs.Database.Reals
import RecordStore.Proofs.Model.Typing
import RecordStore.Query.Compile
import Mathlib.Order.Compare

/-!
# Sorting

What an order means for records. A key looks at the value of its column, or at the value that its
path leads to inside a JSON value, and every value has a place. Records are ordered by the places
that the keys give them, earlier keys first; nothing orders records with the same places. The database
sorts rows by the values of cells and of texts read as JSON. Where no JSON value is nested too deep, no
text fails to be read, and the sorted rows are in order by what is stored of them. The records that
are shown are the same, unless a double in a JSON value is not read back from its text.
-/

namespace RecordStore

/-! ## What is stored of rows -/

/-- The value that a cell is stored for. In JSON text every number counts as it was given. -/
def FieldKind.storedFor (kind : FieldKind) (cell : SqlValue) : Json :=
  match kind, cell with
  | .json, .text s => (Json.readWith Json.nearestDouble s).toOption.getD .null
  | kind, cell => kind.decode cell

/-- The record that is stored as a row. -/
def Model.storedRecord (m : Model) (row : Row) : Record :=
  (m.entries row).map fun entry => (entry.1.name, entry.1.kind.storedFor entry.2)

namespace FieldKind

theorem storedFor_null (kind : FieldKind) : kind.storedFor .null = .null := by cases kind <;> rfl

theorem storedFor_of_ne_json {kind : FieldKind} (h : kind ≠ .json) (cell : SqlValue) :
    kind.storedFor cell = kind.decode cell := by
  cases kind with
  | json => exact absurd rfl h
  | int | float | text | bool => rfl

theorem storedFor_text {value : Json} (h : value.Within 127) :
    json.storedFor (.text value.text) = value := by
  rw [storedFor, Json.readNearest_text h]
  rfl

end FieldKind

namespace Model

variable {m : Model} {row : Row}

theorem member?_storedRecord {name : String} {column : Column} {cell : SqlValue}
    (h : m.cell? row name = some (column, cell)) :
    Json.member? (m.storedRecord row) name = some (column.kind.storedFor cell) :=
  member?_entries h _

/-- Where JSON values are read back, the record that is shown is the one that is stored. -/
theorem recordOf_eq_storedRecord (h : m.Typed Json.Proper row) :
    m.recordOf row = m.storedRecord row := by
  refine List.map_congr_left fun ⟨column, cell⟩ hentry => congrArg (column.name, ·) ?_
  show column.kind.decode cell = column.kind.storedFor cell
  by_cases hkind : column.kind = .json
  · rcases h.entry hentry with rfl | hcell
    · rw [hkind]
      rfl
    · replace hcell : column.kind.Cell Json.Proper cell := hcell
      rw [hkind] at hcell ⊢
      cases hcell with
      | json hproper hv => rw [FieldKind.decode_text hproper, FieldKind.storedFor_text hproper.within]
  · exact (FieldKind.storedFor_of_ne_json hkind cell).symm

end Model

/-! ## Places of what records hold -/

/-- The value that a number counts as in an order: its own if it is a double or fits a signed word,
and otherwise that of the double nearest to it. -/
def Number.place : Number → ℚ
  | .integer n _ =>
    if FitsInt64 n then n
    else match Double.ofInt n with
      | .finite x => x.value
      | _ => 0
  | .float x => x.value

/-- The place of a JSON value: nothing for `null`, truth values as numbers, and arrays and objects
as their text. -/
def Json.rank : Json → Rank
  | .null => ⊥
  | .bool b => .number (if b then 1 else 0)
  | .number n => .number n.place
  | .string s => .text s
  | .array items => .text (Json.array items).text
  | .object members => .text (Json.object members).text

/-- The place of a value that a path leads to. A double counts as the real that the database reads in
its text. -/
def Json.foundRank : Json → Rank
  | .number (.float x) => (SqlValue.real (x.reread .json)).rank
  | value => value.rank

namespace SortKey

/-- The place that a key gives a record. A JSON value is looked into along the path; without a path
it counts as its text. -/
def rank (m : Model) (key : SortKey) (record : Record) : Rank :=
  match m.column? key.column, Json.member? record key.column with
  | some column, some value =>
    if key.subkeys ≠ [] then ((value.follow? key.subkeys).map Json.foundRank).getD ⊥
    else if column.kind = .json ∧ value ≠ .null then .text value.text
    else value.rank
  | _, _ => ⊥

/-- A key puts a record before another. -/
def Before (m : Model) (key : SortKey) (a b : Record) : Prop :=
  if key.descending then key.rank m b < key.rank m a else key.rank m a < key.rank m b

/-- A key names a column of the model, and a path only inside a JSON value. -/
def Resolves (m : Model) (key : SortKey) : Prop :=
  ∃ column, m.column? key.column = some column ∧ (key.subkeys ≠ [] → column.kind = .json)

end SortKey

namespace Model

/-- The places that keys give a record. -/
def places (m : Model) (keys : List SortKey) (record : Record) : List Rank :=
  keys.map fun key => key.rank m record

/-- The keys allow a record before another: the first key that tells them apart puts it there, or none
tells them apart. -/
def Precedes (m : Model) : List SortKey → Record → Record → Prop
  | [], _, _ => True
  | key :: keys, a, b => key.Before m a b ∨ key.rank m a = key.rank m b ∧ m.Precedes keys a b

end Model

theorem SortKey.Before.not_le {m : Model} {key : SortKey} {a b : Record} (h : key.Before m a b) :
    ¬ key.Before m b a ∧ key.rank m a ≠ key.rank m b := by
  unfold Before at h ⊢
  cases hd : key.descending with
  | true =>
    rw [hd, if_pos rfl] at h
    rw [if_pos rfl]
    exact ⟨h.asymm, h.ne'⟩
  | false =>
    rw [hd, if_neg Bool.false_ne_true] at h
    rw [if_neg Bool.false_ne_true]
    exact ⟨h.asymm, h.ne⟩

namespace Model

variable {m : Model} {keys : List SortKey} {a b a' b' : Record}

/-- Records that may stand in both orders have the same places. -/
theorem Precedes.antisymm (h : m.Precedes keys a b) (hback : m.Precedes keys b a) :
    m.places keys a = m.places keys b := by
  induction keys with
  | nil => rfl
  | cons key keys ih =>
    rcases h with h | ⟨hsame, h⟩
    · rcases hback with hback | ⟨hsame, _⟩
      · exact absurd hback h.not_le.1
      · exact absurd hsame.symm h.not_le.2
    · rcases hback with hback | ⟨_, hback⟩
      · exact absurd hsame.symm hback.not_le.2
      · exact congrArg₂ List.cons hsame (ih h hback)

/-- Only the places of records count. -/
theorem Precedes.of_places (h : m.Precedes keys a b) (ha : m.places keys a = m.places keys a')
    (hb : m.places keys b = m.places keys b') : m.Precedes keys a' b' := by
  induction keys with
  | nil => trivial
  | cons key keys ih =>
    obtain ⟨hfirst, hrest⟩ : key.rank m a = key.rank m a' ∧ _ := List.cons.inj ha
    obtain ⟨hfirst', hrest'⟩ : key.rank m b = key.rank m b' ∧ _ := List.cons.inj hb
    rcases h with h | ⟨hsame, h⟩
    · refine .inl ?_
      unfold SortKey.Before at h ⊢
      rwa [← hfirst, ← hfirst']
    · exact .inr ⟨hfirst.symm.trans (hsame.trans hfirst'), ih h hrest hrest'⟩

/-- There is one way to put records in order, as far as their places tell them apart. -/
theorem places_of_precedes {as bs : List Record} (h : as.Perm bs)
    (ha : as.Pairwise (m.Precedes keys)) (hb : bs.Pairwise (m.Precedes keys)) :
    as.map (m.places keys) = bs.map (m.places keys) := by
  let Ordered (p q : List Rank) : Prop :=
    ∃ a b, m.places keys a = p ∧ m.places keys b = q ∧ m.Precedes keys a b
  have hordered {records : List Record} (hrecords : records.Pairwise (m.Precedes keys)) :
      (records.map (m.places keys)).Pairwise Ordered :=
    List.pairwise_map.mpr (hrecords.imp fun {a b} hab => ⟨a, b, rfl, rfl, hab⟩)
  refine (h.map _).eq_of_pairwise (fun p q _ _ hpq hqp => ?_) (hordered ha) (hordered hb)
  obtain ⟨a, b, rfl, rfl, hab⟩ := hpq
  obtain ⟨b', a', hb', ha', hba⟩ := hqp
  exact hab.antisymm (hba.of_places hb' ha')

end Model

/-! ## Places of cells -/

theorem Number.place_spec (n : Number) : (SqlValue.ofNumber n).Finite ∧
    (SqlValue.ofNumber n).rank = .number n.place := by
  obtain ⟨x, hx⟩ := n.toDouble_finite
  cases n with
  | integer n h =>
    have hdouble : Double.ofInt n = .finite x := hx
    by_cases hfits : FitsInt64 n
    · simp only [SqlValue.ofNumber, toInt64?, if_pos hfits, place]
      refine ⟨fun _ hreal => SqlValue.noConfusion hreal, ?_⟩
      rw [SqlValue.rank, toInt_ofInt_of_fits hfits]
    · simp only [SqlValue.ofNumber, toInt64?, if_neg hfits, hx, place, hdouble]
      exact ⟨fun y hy => ⟨x, (SqlValue.real.inj hy).symm⟩, rfl⟩
  | float y => exact ⟨fun z hz => ⟨y, (SqlValue.real.inj hz).symm⟩, rfl⟩

theorem Number.place_ofInt64 (n : Int64) : (ofInt64 n).place = n.toInt :=
  if_pos (fitsInt64_toInt n)

/-- An integer that fits no signed word counts as the double nearest to it. -/
theorem Number.place_nearest {n : Int} (h : InRange n) (hfits : ¬ FitsInt64 n) :
    ∃ x : Binary64, (integer n h).place = x.value ∧ x.Nearest n := by
  obtain ⟨x, hx, hnearest⟩ := (integer n h).toDouble_nearest
  have hdouble : Double.ofInt n = .finite x := hx
  refine ⟨x, ?_, hnearest⟩
  simp only [place, if_neg hfits, hdouble]

theorem SqlValue.rank_ofFound (value : Json) :
    (ofFound value).Finite ∧ (ofFound value).rank = value.foundRank := by
  cases value with
  | number n =>
    cases n with
    | integer n h => exact Number.place_spec (.integer n h)
    | float x =>
      obtain ⟨y, hy⟩ := x.rereadJson_finite
      exact ⟨fun z hz => ⟨y, (SqlValue.real.inj hz).symm.trans hy⟩, rfl⟩
  | bool b => cases b <;> exact ⟨nofun, rfl⟩
  | null | string | array | object => exact ⟨nofun, rfl⟩

theorem FieldKind.Cell.rank {kind : FieldKind} {cell : SqlValue}
    (h : kind.Cell (Json.Within 127) cell) : cell.Finite ∧ kind.storedFor cell ≠ .null ∧
      cell.rank = if kind = .json then .text (kind.storedFor cell).text
        else (kind.storedFor cell).rank := by
  cases h with
  | int n =>
    refine ⟨nofun, nofun, ?_⟩
    rw [if_neg nofun]
    show Rank.number n.toInt = .number (Number.ofInt64 n).place
    rw [Number.place_ofInt64]
  | @float x h => exact ⟨fun y hy => ⟨x, (SqlValue.real.inj hy).symm⟩, nofun, rfl⟩
  | text s => exact ⟨nofun, nofun, rfl⟩
  | bool b => cases b <;> exact ⟨nofun, nofun, rfl⟩
  | @json value hwithin hv =>
    rw [storedFor_text hwithin]
    exact ⟨nofun, hv, rfl⟩

/-! ## Comparing by keys -/

/-- How a key compares records. -/
def SortKey.compareBy (m : Model) (key : SortKey) (a b : Record) : Ordering :=
  if key.descending then compare (key.rank m b) (key.rank m a)
  else compare (key.rank m a) (key.rank m b)

/-- How keys compare records, earlier keys first. -/
def Model.compareBy (m : Model) : List SortKey → Record → Record → Ordering
  | [] => fun _ _ => .eq
  | key :: keys => compareLex (key.compareBy m) (m.compareBy keys)

instance (m : Model) (key : SortKey) : Std.TransCmp (key.compareBy m) := by
  have hplaces : Std.TransCmp fun a b => compare (key.rank m a) (key.rank m b) :=
    inferInstanceAs (Std.TransCmp (compareOn (key.rank m)))
  have hback : Std.TransCmp fun a b => compare (key.rank m b) (key.rank m a) := hplaces.opposite
  unfold SortKey.compareBy
  cases key.descending
  · exact hplaces
  · exact hback

instance (m : Model) (keys : List SortKey) : Std.TransCmp (m.compareBy keys) := by
  induction keys with
  | nil => exact { eq_swap := rfl, isLE_trans := fun _ _ => rfl }
  | cons key keys ih => exact inferInstanceAs (Std.TransCmp (compareLex _ _))

theorem SortKey.compareBy_eq_lt {m : Model} {key : SortKey} {a b : Record} :
    key.compareBy m a b = .lt ↔ key.Before m a b := by
  unfold compareBy Before
  cases key.descending <;> exact compare_lt_iff_lt

theorem SortKey.compareBy_eq_eq {m : Model} {key : SortKey} {a b : Record} :
    key.compareBy m a b = .eq ↔ key.rank m a = key.rank m b := by
  unfold compareBy
  cases key.descending
  · exact compare_eq_iff_eq
  · exact compare_eq_iff_eq.trans eq_comm

/-- Records are in order if the keys do not compare them the other way round. -/
theorem Model.precedes_iff {m : Model} {keys : List SortKey} {a b : Record} :
    m.Precedes keys a b ↔ m.compareBy keys a b ≠ .gt := by
  induction keys with
  | nil => exact iff_of_true trivial nofun
  | cons key keys ih =>
    rw [Precedes, ih, compareBy, compareLex, ← SortKey.compareBy_eq_lt, ← SortKey.compareBy_eq_eq]
    cases key.compareBy m a b <;> simp

/-- Sorting by a comparison puts a list in order. -/
theorem pairwise_mergeSort_compare {α : Type} (cmp : α → α → Ordering) [Std.TransCmp cmp]
    (list : List α) :
    (list.mergeSort fun a b => cmp a b ≠ .gt).Pairwise fun a b => cmp a b ≠ .gt := by
  have htrans : ∀ a b c, decide (cmp a b ≠ .gt) = true → decide (cmp b c ≠ .gt) = true →
      decide (cmp a c ≠ .gt) = true := by
    simp only [decide_eq_true_eq, Ordering.ne_gt_iff_isLE]
    exact fun a b c => Std.TransCmp.isLE_trans
  have htotal : ∀ a b, (decide (cmp a b ≠ .gt) || decide (cmp b a ≠ .gt)) = true := by
    intro a b
    have hswap : cmp b a = (cmp a b).swap := Std.OrientedCmp.eq_swap
    rw [hswap]
    cases cmp a b <;> rfl
  exact (List.pairwise_mergeSort htrans htotal list).imp of_decide_eq_true

/-! ## Rows in order -/

namespace Model

variable {m : Model} {t : Table}

theorem orderTerm_of_resolves {key : SortKey} (h : key.Resolves m) :
    ∃ column, m.column? key.column = some column ∧ (key.subkeys ≠ [] → column.kind = .json) ∧
      m.orderTerm key = .ok ⟨column.name, key.subkeys, key.descending⟩ := by
  obtain ⟨column, hcolumn, hjson⟩ := h
  refine ⟨column, hcolumn, hjson, ?_⟩
  have hpath : ¬ (key.subkeys ≠ [] ∧ column.kind ≠ .json) := fun h => h.2 (hjson h.1)
  rw [orderTerm, resolve_eq_ok.mpr hcolumn, ok_bind, if_neg hpath]

/-- A term never fails on a row of well-typed cells, and the value that it finds has the place that
the key gives the record that is stored as the row. -/
theorem value_of_resolves (ht : m.OwnTable t) {row : Row} (hrow : row ∈ t.rows)
    (htyped : m.Typed (Json.Within 127) row) {key : SortKey} (h : key.Resolves m) {term : OrderTerm}
    (hterm : m.orderTerm key = .ok term) : ∃ v, term.value t row = .ok v ∧ v.Finite ∧
      v.rank = key.rank m (m.storedRecord row) ∧ term.descending = key.descending := by
  obtain ⟨column, hcolumn, hjson, hsame⟩ := orderTerm_of_resolves h
  cases hterm.symm.trans hsame
  obtain ⟨cell, hcell⟩ := cell?_of_resolve ht hrow (resolve_eq_ok.mpr hcolumn)
  have hread := read_cell? ht hcell
  have hholds := htyped.entry (entry_of_cell? hcell).1
  simp only [OrderTerm.value, hread, SortKey.rank, hcolumn, member?_storedRecord hcell]
  cases hsubkeys : key.subkeys with
  | nil =>
    refine ⟨cell, rfl, ?_⟩
    simp only [ne_eq, not_true_eq_false, if_false]
    rcases hholds with rfl | hholds
    · simp only [FieldKind.storedFor_null, not_true_eq_false, and_false, if_false]
      exact ⟨nofun, rfl, trivial⟩
    · obtain ⟨hfinite, hvalue, hrank⟩ := hholds.rank
      exact ⟨hfinite, by simp only [hvalue, not_false_eq_true, and_true]; exact hrank, trivial⟩
  | cons subkey rest =>
    have hkind := hjson (by simp [hsubkeys])
    simp only [ne_eq, reduceCtorEq, not_false_eq_true, if_true]
    rcases hholds with rfl | hholds
    · rw [FieldKind.storedFor_null]
      exact ⟨.null, rfl, nofun, rfl, trivial⟩
    · rw [hkind] at hholds ⊢
      cases hholds with
      | @json value hwithin hv =>
        simp only [SqlValue.jsonText?, Json.readNearest_text hwithin,
          FieldKind.storedFor_text hwithin]
        refine ⟨_, rfl, ?_⟩
        cases value.follow? (subkey :: rest) with
        | none => exact ⟨nofun, rfl, trivial⟩
        | some found =>
          obtain ⟨hfinite, hrank⟩ := SqlValue.rank_ofFound found
          exact ⟨hfinite, hrank, trivial⟩

/-- The values that terms find in rows compare as the keys compare the stored records. -/
theorem values_of_resolves (ht : m.OwnTable t)
    (htyped : ∀ row ∈ t.rows, m.Typed (Json.Within 127) row) {keys : List SortKey}
    (h : ∀ key ∈ keys, key.Resolves m) : ∃ terms,
      keys.mapM m.orderTerm = .ok terms ∧ ∃ values : Row → List SqlValue,
        (∀ row ∈ t.rows, terms.mapM (·.value t row) = .ok (values row)) ∧
        ∀ a ∈ t.rows, ∀ b ∈ t.rows, compareKeys terms (values a) (values b) =
          m.compareBy keys (m.storedRecord a) (m.storedRecord b) := by
  induction keys with
  | nil => exact ⟨[], rfl, fun _ => [], fun _ _ => rfl, fun _ _ _ _ => rfl⟩
  | cons key keys ih =>
    obtain ⟨terms, hterms, values, hvalues, hcompare⟩ := ih fun other hother =>
      h other (List.mem_cons_of_mem _ hother)
    have hkey := h key List.mem_cons_self
    obtain ⟨column, _, _, hterm⟩ := orderTerm_of_resolves hkey
    let term : OrderTerm := ⟨column.name, key.subkeys, key.descending⟩
    have hfirst : ∀ row ∈ t.rows, ∃ v, term.value t row = .ok v ∧ v.Finite ∧
        v.rank = key.rank m (m.storedRecord row) := by
      intro row hrow
      obtain ⟨v, hv, hfinite, hrank, _⟩ := value_of_resolves ht hrow (htyped row hrow) hkey hterm
      exact ⟨v, hv, hfinite, hrank⟩
    let first (row : Row) : SqlValue := (term.value t row).toOption.getD .null
    have hvalue : ∀ row ∈ t.rows, term.value t row = .ok (first row) ∧ (first row).Finite ∧
        (first row).rank = key.rank m (m.storedRecord row) := by
      intro row hrow
      obtain ⟨v, hv, hplace⟩ := hfirst row hrow
      have hsame : first row = v := by
        simp only [first, hv]
        rfl
      exact hsame ▸ ⟨hv, hplace⟩
    refine ⟨term :: terms, ?_, fun row => first row :: values row, ?_, ?_⟩
    · rw [List.mapM_cons, hterm, ok_bind, hterms]
      rfl
    · intro row hrow
      rw [List.mapM_cons, (hvalue row hrow).1, ok_bind, hvalues row hrow]
      rfl
    · intro a ha b hb
      obtain ⟨_, hfa, hra⟩ := hvalue a ha
      obtain ⟨_, hfb, hrb⟩ := hvalue b hb
      rw [compareKeys, hcompare a ha b hb, SqlValue.order_eq_compare hfa hfb,
        SqlValue.order_eq_compare hfb hfa, hra, hrb]
      rfl

/-- Rows whose terms have values are sorted by these. -/
theorem sortRows_eq {terms : List OrderTerm} {values : Row → List SqlValue} {rows : List Row}
    (h : ∀ row ∈ rows, terms.mapM (·.value t row) = .ok (values row)) : sortRows terms t rows =
      .ok (rows.mergeSort fun a b => compareKeys terms (values a) (values b) ≠ .gt) := by
  unfold sortRows
  split
  next hterms =>
    subst hterms
    rw [List.mergeSort_of_pairwise]
    exact List.pairwise_of_forall fun _ _ => rfl
  next =>
    have hkeyed : (rows.mapM fun row => (do
        let keys ← terms.mapM (·.value t row)
        pure (keys, row) : Except DatabaseFault (List SqlValue × Row))) =
          .ok (rows.map fun row => (values row, row)) := by
      induction rows with
      | nil => rfl
      | cons row rest ih =>
        rw [List.mapM_cons, h row List.mem_cons_self, ok_bind,
          ih fun other hother => h other (List.mem_cons_of_mem _ hother)]
        rfl
    rw [hkeyed, ok_bind, ← List.map_mergeSort (r := fun a b =>
      compareKeys terms (values a) (values b) ≠ .gt) fun _ _ _ _ => rfl, List.map_map]
    exact congrArg Except.ok (List.map_id _)

/-- Sorting never fails on well-typed rows. It leaves the same rows, with the stored records in
order. -/
theorem sortRows_spec (ht : m.OwnTable t)
    (htyped : ∀ row ∈ t.rows, m.Typed (Json.Within 127) row) {keys : List SortKey}
    (h : ∀ key ∈ keys, key.Resolves m) :
    ∃ terms, keys.mapM m.orderTerm = .ok terms ∧ ∀ rows : List Row, rows ⊆ t.rows →
      ∃ sorted, sortRows terms t rows = .ok sorted ∧ sorted.Perm rows ∧
        (sorted.map m.storedRecord).Pairwise (m.Precedes keys) := by
  obtain ⟨terms, hterms, values, hvalues, hcompare⟩ := values_of_resolves ht htyped h
  refine ⟨terms, hterms, fun rows hrows => ⟨_, sortRows_eq fun row hrow => hvalues row (hrows hrow),
    List.mergeSort_perm _ _, ?_⟩⟩
  rw [List.map_mergeSort (s := fun a b => m.compareBy keys a b ≠ .gt) fun a ha b hb => by
    rw [hcompare a (hrows ha) b (hrows hb)]]
  exact (pairwise_mergeSort_compare (m.compareBy keys) _).imp Model.precedes_iff.mpr

end Model

end RecordStore
