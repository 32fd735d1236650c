import RecordStore.Proofs.Model.Filled
import RecordStore.Proofs.Database.FirstRow

/-!
# Why statements are refused

A statement with the cells of an accepted record names only columns of its table, and gives the key
an integer. It is refused only because a constraint is violated, or, where a new row needs a key,
because there are no more keys.
-/

namespace RecordStore

namespace Table

variable {t : Table} {row : Row} {e : DatabaseFault}

theorem checkNotNull_error (h : t.checkNotNull row = .error e) : e.isConstraint = true := by
  unfold checkNotNull at h
  split at h
  · cases h
    rfl
  · cases h

theorem checkUnique_error {others : List Row} (h : t.checkUnique others row = .error e) :
    e.isConstraint = true := by
  unfold checkUnique at h
  split at h
  · cases h
    rfl
  · split at h
    · cases h
      rfl
    · cases h

/-- Changing a row without setting its key can only violate a constraint. -/
theorem updateRow_error {cells : List (String × SqlValue)}
    (hno : assigned? cells.reverse "_id" = none) (h : updateRow cells t row = .error e) :
    e.isConstraint = true := by
  rw [updateRow, assign_of_no_id hno, ok_bind] at h
  rcases bind_eq_error.mp h with hnull | ⟨_, _, h⟩
  · exact checkNotNull_error hnull
  · rcases bind_eq_error.mp h with hunique | ⟨_, _, h⟩
    · exact checkUnique_error hunique
    · cases h

end Table

namespace Model.OwnTable

variable {m : Model} {t : Table} {record : Record} {cells : List (String × SqlValue)}
variable {e : DatabaseFault} (ht : m.OwnTable t)
include ht

/-- The table has a column for every cell of an accepted record. -/
theorem hasColumn_of_encode {allowId : Bool} (hc : m.encode allowId record = .ok cells) :
    ∀ given ∈ cells, t.hasColumn given.1 = true := by
  intro given hgiven
  obtain ⟨member, _, hencode⟩ := mem_of_mapM hc hgiven
  obtain ⟨hname, column, hcolumn, _⟩ := encodeMember_eq_ok hencode
  obtain ⟨hmem, hsame⟩ := column?_name hcolumn
  rw [hname, ← hsame]
  rcases List.mem_cons.mp hmem with rfl | hfield
  · rfl
  · obtain ⟨f, hf, rfl⟩ := List.mem_map.mp hfield
    exact (ht.hasColumn hf).1

/-- A change of rows can only violate a constraint. -/
theorem update_error {condition : Option Clause} (hc : m.encode false record = .ok cells)
    (h : t.update cells condition = .error e) : e.isConstraint = true := by
  unfold Table.update at h
  split at h
  next hfound =>
    have hunknown := List.find?_some hfound
    have hknown := ht.hasColumn_of_encode hc _ (List.mem_of_find?_eq_some hfound)
    simp [hknown] at hunknown
  · rcases bind_eq_error.mp h with hfold | ⟨_, _, h⟩
    · obtain ⟨row, _, u, hstep⟩ := foldlM_error hfold
      exact Table.updateRow_error (ht.assigned?_id hc) hstep
    · cases h

/-- The key of a new row is refused only if there are no more keys. -/
theorem newId_error (hc : m.encode true record = .ok cells) (h : t.newId cells = .error e) :
    e = .full := by
  have hnext (h : t.nextId = .error e) : e = .full := by
    simp only [Table.nextId] at h
    split at h
    · cases h
    · cases h
      rfl
  unfold Table.newId at h
  split at h
  · exact hnext h
  · exact hnext h
  next value _ hassigned =>
    have hreverse : m.encode true record.reverse = .ok cells.reverse := mapM_reverse hc
    have hid : Column.id ∈ m.columns := List.mem_cons_self
    have hgiven := ht.mem_of_assigned? hreverse hid hassigned
    obtain ⟨member, _, hencode⟩ := mem_of_mapM hreverse hgiven
    obtain ⟨hname, column, hcolumn, _⟩ := encodeMember_eq_ok hencode
    have hfound : m.column? member.1 = some .id := by
      rw [← hname]
      exact ht.column?_of_mem hid
    obtain ⟨id, hinteger⟩ := encodeMember_id hencode hfound
    simp only at hinteger
    subst hinteger
    cases h

/-- A new row gets its key and is checked. -/
theorem insert_eq (hc : m.encode true record = .ok cells) (name : String) :
    t.insert name cells = (do
      let id ← t.newId cells
      t.checkNotNull ⟨id, t.newCells cells⟩
      t.checkUnique t.rows ⟨id, t.newCells cells⟩
      .ok (⟨t.name, t.columns, Table.insertRow ⟨id, t.newCells cells⟩ t.rows, max t.sequence id⟩,
        id)) := by
  rw [Table.insert, Table.find?_unknown_eq_none (ht.hasColumn_of_encode hc)]

/-- A new row can only violate a constraint, or be refused because there are no more keys. -/
theorem insert_error {name : String} (hc : m.encode true record = .ok cells)
    (h : t.insert name cells = .error e) : e.isConstraint = true ∨ e = .full := by
  rw [ht.insert_eq hc] at h
  rcases bind_eq_error.mp h with hid | ⟨id, _, h⟩
  · exact .inr (ht.newId_error hc hid)
  · rcases bind_eq_error.mp h with hnull | ⟨_, _, h⟩
    · exact .inl (Table.checkNotNull_error hnull)
    · rcases bind_eq_error.mp h with hunique | ⟨_, _, h⟩
      · exact .inl (Table.checkUnique_error hunique)
      · cases h

end Model.OwnTable

end RecordStore
