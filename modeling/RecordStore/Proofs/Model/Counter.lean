import RecordStore.Proofs.Model.Members

/-!
# The counter of a table

The counter of a table starts at zero and never falls below the key of a row. So the key that a new
row gets where its record gives none is one more than the counter, and there is none left once the
counter stands at the largest key.
-/

namespace RecordStore

/-- The larger of two words is the second one or the first one. -/
theorem max_int64_cases (a b : Int64) : a.toInt ≤ b.toInt ∧ max a b = b ∨
    b.toInt ≤ a.toInt ∧ max a b = a := by
  have hmax : max a b = if a ≤ b then b else a := rfl
  split at hmax
  next hle => exact .inl ⟨Int64.le_iff_toInt_le.mp hle, hmax⟩
  next hlt => exact .inr ⟨Int.le_of_lt (Int.not_le.mp (mt Int64.le_iff_toInt_le.mpr hlt)), hmax⟩

theorem toInt_max (a b : Int64) : (max a b).toInt = max a.toInt b.toInt := by
  rcases max_int64_cases a b with ⟨hle, hmax⟩ | ⟨hle, hmax⟩
  · rw [hmax, Int.max_eq_right hle]
  · rw [hmax, Int.max_eq_left hle]

namespace Json

theorem member?_reverse_eq_none {record : Record} {key : String} (h : member? record key = none) :
    member? record.reverse key = none := by
  rw [member?, Option.map_eq_none_iff, List.find?_eq_none] at h ⊢
  exact fun member hmember => h member (List.mem_reverse.mp hmember)

end Json

namespace Table

/-- The counter has reached all keys of rows, and zero. -/
structure Bounded (t : Table) : Prop where
  zero : 0 ≤ t.sequence.toInt
  rows : ∀ row ∈ t.rows, row.id.toInt ≤ t.sequence.toInt

theorem Bounded.last {t : Table} (h : t.Bounded) :
    t.rows.foldl (fun n row => max n row.id.toInt) t.sequence.toInt = t.sequence.toInt := by
  have hrows := h.rows
  generalize t.rows = rows at hrows
  induction rows with
  | nil => rfl
  | cons row rest ih =>
    rw [List.foldl_cons, Int.max_eq_left (hrows row List.mem_cons_self)]
    exact ih fun other hother => hrows other (List.mem_cons_of_mem _ hother)

theorem Bounded.nextId_eq {t : Table} (h : t.Bounded) :
    t.nextId = if FitsInt64 (t.sequence.toInt + 1) then .ok (Int64.ofInt (t.sequence.toInt + 1))
      else .error .full := by
  simp only [nextId, h.last]

theorem Bounded.nextId_eq_ok {t : Table} (h : t.Bounded) {id : Int64} :
    t.nextId = .ok id ↔ id.toInt = t.sequence.toInt + 1 := by
  rw [h.nextId_eq]
  constructor
  · intro hid
    split at hid
    next hfits =>
      cases hid
      exact toInt_ofInt_of_fits hfits
    next => cases hid
  · intro hid
    have hfits : FitsInt64 (t.sequence.toInt + 1) := hid ▸ fitsInt64_toInt id
    rw [if_pos hfits, ← hid, Int64.ofInt_toInt]

/-- There is no key left once the counter stands at the largest one. -/
theorem Bounded.nextId_eq_error {t : Table} (h : t.Bounded) {e : DatabaseFault} :
    t.nextId = .error e ↔ t.sequence.toInt = maxInt64 ∧ e = .full := by
  have hzero := h.zero
  have hlimit := t.sequence.toInt_lt
  have hfits : FitsInt64 (t.sequence.toInt + 1) ↔ t.sequence.toInt ≠ maxInt64 := by
    unfold FitsInt64 maxInt64
    omega
  rw [h.nextId_eq]
  by_cases hlast : t.sequence.toInt = maxInt64
  · rw [if_neg fun h => hfits.mp h hlast, Except.error.injEq, eq_comm]
    exact (and_iff_right hlast).symm
  · rw [if_pos (hfits.mpr hlast)]
    exact ⟨nofun, fun h => absurd h.1 hlast⟩

theorem Bounded.inserted {t t' : Table} (h : t.Bounded) {name : String}
    {cells : List (String × SqlValue)} {id : Int64} (hi : t.insert name cells = .ok (t', id)) :
    t'.Bounded := by
  obtain ⟨_, rfl⟩ := insert_eq_ok hi
  refine ⟨?_, fun row hrow => ?_⟩
  · rw [toInt_max]
    exact Int.le_trans h.zero (Int.le_max_left _ _)
  · rw [toInt_max]
    rcases mem_insertRow.mp hrow with rfl | hrow
    · exact Int.le_max_right _ _
    · exact Int.le_trans (h.rows row hrow) (Int.le_max_left _ _)

/-- The rows of a table were held, and the counter is the largest of the keys that were, or zero
where none was larger. -/
structure Counts (held : Int64 → Prop) (t : Table) : Prop where
  rows : ∀ row ∈ t.rows, held row.id
  reached : ∀ id, held id → id.toInt ≤ t.sequence.toInt
  largest : t.sequence = 0 ∨ held t.sequence

/-- The largest key was held exactly if the counter stands at it. -/
theorem Counts.last_iff {held : Int64 → Prop} {t : Table} (h : t.Counts held) :
    (∃ id, held id ∧ id.toInt = maxInt64) ↔ t.sequence.toInt = maxInt64 := by
  constructor
  · rintro ⟨last, hheld, hlast⟩
    have hreached := h.reached last hheld
    have hlimit := t.sequence.toInt_lt
    unfold maxInt64 at hlast ⊢
    omega
  · intro hlast
    refine ⟨t.sequence, h.largest.resolve_left fun hzero => ?_, hlast⟩
    rw [hzero] at hlast
    cases hlast

end Table

namespace Model

variable {good : Json → Prop} {m : Model} {t : Table}

theorem Filled.bounded (h : m.Filled good t) : t.Bounded := by
  induction h with
  | created => exact ⟨Int.le_refl _, fun _ h => absurd h List.not_mem_nil⟩
  | inserted _ _ _ h ih => exact ih.inserted h
  | updated ht _ hc h ih =>
    obtain ⟨_, rfl⟩ := Table.update_of_no_id (ht.own.assigned?_id hc) ht.own.sorted h
    refine ⟨ih.zero, fun row hrow => ?_⟩
    obtain ⟨old, hold, rfl⟩ := List.mem_map.mp hrow
    split
    · exact ih.rows old hold
    · exact ih.rows old hold
  | deleted condition _ ih => exact ⟨ih.zero, fun row hrow => ih.rows row (List.mem_filter.mp hrow).1⟩

namespace OwnTable

variable {record : Record} {cells : List (String × SqlValue)} (ht : m.OwnTable t)
variable (hc : m.encode true record = .ok cells)
include ht hc

/-- A record without a key gets the next one. -/
theorem newId_of_none (h : Json.member? record primaryKey = none) : t.newId cells = t.nextId := by
  have hreverse : m.encode true record.reverse = .ok cells.reverse := mapM_reverse hc
  have hid : Column.id ∈ m.columns := List.mem_cons_self
  rcases ht.assigned?_of_encode hreverse hid with ⟨_, hnone⟩ | ⟨_, _, hsome, _, _⟩
  · rw [Table.newId, show assigned? cells.reverse "_id" = none from hnone]
  · cases (Json.member?_reverse_eq_none h).symm.trans hsome

/-- A record with a key gets this one. -/
theorem newId_of_some (hd : Json.DistinctKeys record) {value : Json}
    (h : Json.member? record primaryKey = some value) :
    ∃ id, value.toInt64? = some id ∧ t.newId cells = .ok id := by
  have hreverse : m.encode true record.reverse = .ok cells.reverse := mapM_reverse hc
  have hid : Column.id ∈ m.columns := List.mem_cons_self
  have hmember : Json.member? record.reverse primaryKey = some value := by
    have hdr : Json.DistinctKeys record.reverse := List.pairwise_reverse.mpr (hd.imp Ne.symm)
    exact Json.member?_of_distinct hdr (List.mem_reverse.mpr (Json.member?_eq_some h))
  rcases ht.assigned?_of_encode hreverse hid with ⟨hnone, _⟩ | ⟨_, given, hsome, hassigned, hencode⟩
  · cases hnone.symm.trans hmember
  · cases hsome.symm.trans hmember
    have hcolumn : m.column? Column.id.name = some .id := ht.column?_of_mem hid
    simp only [encodeMember, hcolumn, if_true] at hencode
    split at hencode
    next id hvalue =>
      cases hencode
      refine ⟨id, hvalue, ?_⟩
      rw [Table.newId, show assigned? cells.reverse "_id" = some (.integer id) from hassigned]
      rfl
    next => cases hencode

end OwnTable

end Model

end RecordStore
