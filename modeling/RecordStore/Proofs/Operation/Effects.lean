import RecordStore.Proofs.Operation.Plans
import RecordStore.Proofs.Model.Counter

/-!
# What operations do to rows

An operation that removes no rows leaves every row of its model under its key, and changes it at most
as it says. An operation that creates no rows leaves no other keys. The counter of the table never
falls, and where it rises it rises to the key of a row that stays.
-/

namespace RecordStore

/-- Changes that are applied twice are applied once. -/
theorem Model.applied_applied (m : Model) (changes record : Record) :
    m.applied changes (m.applied changes record) = m.applied changes record := by
  rw [applied, applied, List.map_map]
  refine List.map_congr_left fun member _ => ?_
  cases hcolumn : m.column? member.1 with
  | none => simp only [Function.comp_apply, hcolumn]
  | some column =>
    cases hvalue : Json.member? changes.reverse member.1 with
    | none => simp only [Function.comp_apply, hcolumn, hvalue]
    | some value => simp only [Function.comp_apply, hcolumn, hvalue]

namespace Operation

/-- What an operation does to the rows and to the counter of the table of its model. -/
structure Effect (m : Model) (op : Operation) (t t' : Table) : Prop where
  kept : op.removes = false → ∀ row ∈ t.rows, ∃ row' ∈ t'.rows, row'.id = row.id ∧
    (m.recordOf row' = m.recordOf row ∨
      ∃ changes ∈ op.changes, m.recordOf row' = m.applied changes (m.recordOf row))
  added : op.created = [] → ∀ row' ∈ t'.rows, ∃ row ∈ t.rows, row.id = row'.id
  sequence : t.sequence.toInt ≤ t'.sequence.toInt
  reached : t'.sequence = t.sequence ∨
    op.removes = false ∧ ∃ row ∈ t'.rows, row.id = t'.sequence

namespace Effect

variable {m : Model} {op : Operation} {t t' t'' : Table}

theorem refl (t : Table) : op.Effect m t t where
  kept _ row hrow := ⟨row, hrow, rfl, .inl rfl⟩
  added _ row hrow := ⟨row, hrow, rfl⟩
  sequence := Int.le_refl _
  reached := .inl rfl

theorem trans (h : op.Effect m t t') (h' : op.Effect m t' t'') : op.Effect m t t'' where
  kept hremoves row hrow := by
    obtain ⟨row', hrow', hid, hrecord⟩ := h.kept hremoves row hrow
    obtain ⟨row'', hrow'', hid', hrecord'⟩ := h'.kept hremoves row' hrow'
    refine ⟨row'', hrow'', hid'.trans hid, ?_⟩
    rcases hrecord' with hsame | ⟨changes, hchanges, hchanged⟩
    · rwa [hsame]
    · refine .inr ⟨changes, hchanges, ?_⟩
      rcases hrecord with hsame | ⟨other, hother, hchanged'⟩
      · rw [hchanged, hsame]
      · obtain rfl : changes = other := Option.some.inj (hchanges.symm.trans hother)
        rw [hchanged, hchanged', m.applied_applied]
  added hcreated row'' hrow'' := by
    obtain ⟨row', hrow', hid'⟩ := h'.added hcreated row'' hrow''
    obtain ⟨row, hrow, hid⟩ := h.added hcreated row' hrow'
    exact ⟨row, hrow, hid.trans hid'⟩
  sequence := Int.le_trans h.sequence h'.sequence
  reached := by
    rcases h'.reached with hsame | hreached
    · rcases h.reached with hsame' | ⟨hremoves, row, hrow, hid⟩
      · exact .inl (hsame.trans hsame')
      · obtain ⟨row', hrow', hid', _⟩ := h'.kept hremoves row hrow
        exact .inr ⟨hremoves, row', hrow', by rw [hid', hid, hsame]⟩
    · exact .inr hreached

/-- A new row for a record that the operation may create. -/
theorem inserted {record : Record} (hrecord : record ∈ op.created) {name : String}
    {cells : List (String × SqlValue)} {id : Int64} (h : t.insert name cells = .ok (t', id)) :
    op.Effect m t t' := by
  obtain ⟨_, rfl⟩ := Table.insert_eq_ok h
  refine ⟨fun _ row hrow => ⟨row, Table.mem_insertRow.mpr (.inr hrow), rfl, .inl rfl⟩,
    fun hcreated => ?_, ?_, ?_⟩
  · rw [hcreated] at hrecord
    exact absurd hrecord List.not_mem_nil
  · show t.sequence.toInt ≤ (max t.sequence id).toInt
    rw [toInt_max]
    exact Int.le_max_left _ _
  · show max t.sequence id = t.sequence ∨ _ ∧ ∃ row : Row, row ∈ _ ∧ row.id = max t.sequence id
    rcases max_int64_cases t.sequence id with ⟨_, hmax⟩ | ⟨_, hmax⟩
    · rw [hmax]
      exact .inr ⟨removes_of_created hrecord, _, Table.mem_insertRow.mpr (.inl rfl), rfl⟩
    · exact .inl hmax

/-- The rows that meet a condition are changed as the operation says. -/
theorem updated {record : Record} (hrecord : record ∈ op.changes) {cells : List (String × SqlValue)}
    (ht : m.OwnTable t) (hc : m.encode false record = .ok cells) {condition : Option Clause} {n : Nat}
    (h : t.update cells condition = .ok (t', n)) : op.Effect m t t' := by
  obtain ⟨_, rfl⟩ := Table.update_of_no_id (ht.assigned?_id hc) ht.sorted h
  refine ⟨fun _ row hrow => ⟨_, List.mem_map_of_mem hrow, ?_⟩, fun _ row' hrow' => ?_,
    Int.le_refl _, .inl rfl⟩
  · split
    · exact ⟨rfl, .inr ⟨record, hrecord, ht.recordOf_changed hc row⟩⟩
    · exact ⟨rfl, .inl rfl⟩
  · obtain ⟨row, hrow, rfl⟩ := List.mem_map.mp hrow'
    refine ⟨row, hrow, ?_⟩
    split <;> rfl

/-- The rows that meet a condition are removed. -/
theorem deleted (hremoves : op.removes = true) (condition : Option Clause) :
    op.Effect m t (t.delete condition).1 where
  kept hkept := absurd (hremoves.symm.trans hkept) nofun
  added _ row hrow := ⟨row, (List.mem_filter.mp hrow).1, rfl⟩
  sequence := Int.le_refl _
  reached := .inl rfl

end Effect

/-- The table of a model is one of its own and becomes another by what an operation does. -/
def Affects (m : Model) (op : Operation) (db db' : Database) : Prop :=
  ∀ t, db.table? m.tableName = some t → m.OwnTable t →
    ∃ t', db'.table? m.tableName = some t' ∧ m.OwnTable t' ∧ op.Effect m t t'

theorem covers_affects (m : Model) (op : Operation) : op.Covers (op.Affects m) m where
  refl _ t ht hown := ⟨t, ht, hown, .refl t⟩
  trans _ _ _ hab hbc t ht hown := by
    obtain ⟨t', ht', hown', heffect⟩ := hab t ht hown
    obtain ⟨t'', ht'', hown'', heffect'⟩ := hbc t' ht' hown'
    exact ⟨t'', ht'', hown'', heffect.trans heffect'⟩
  insert record hrecord cells _ db db' id h t ht hown := by
    obtain ⟨_, u, t', hu, hi, rfl⟩ := Database.insert_eq_ok.mp h
    cases hu.symm.trans ht
    have hsame : sameName t'.name m.tableName := (Table.insert_name hi).1 ▸ Database.table?_name ht
    exact ⟨t', Database.table?_setTable_self ht hsame, .inserted hown hi, .inserted hrecord hi⟩
  update record hrecord cells hc filter s hs db db' n h t ht hown := by
    obtain ⟨htable, hcells⟩ := Model.update_table hs
    obtain ⟨_, u, t', hu, hupdate, rfl⟩ := Database.update_eq_ok.mp h
    rw [htable] at hu
    rw [hcells] at hupdate
    cases hu.symm.trans ht
    have hsame : sameName t'.name m.tableName :=
      (Table.update_name hupdate).1 ▸ Database.table?_name ht
    exact ⟨t', Database.table?_setTable_self ht hsame, .updated hown hupdate,
      .updated hrecord hown hc hupdate⟩
  delete hremoves filter s hs db db' n h t ht hown := by
    obtain ⟨_, u, hu, _, rfl⟩ := Database.delete_eq_ok.mp h
    rw [Model.delete_table hs] at hu
    have hsame : sameName (u.delete s.condition).1.name m.tableName :=
      (Database.table?_name hu : sameName u.name m.tableName)
    cases hu.symm.trans ht
    exact ⟨_, Database.table?_setTable_self ht hsame, .deleted _ hown, .deleted hremoves _⟩

/-- What two relations cover, both cover together. -/
theorem Covers.and {R S : Database → Database → Prop} {m : Model} {op : Operation}
    (hR : op.Covers R m) (hS : op.Covers S m) : op.Covers (fun db db' => R db db' ∧ S db db') m where
  refl db := ⟨hR.refl db, hS.refl db⟩
  trans _ _ _ hab hbc := ⟨hR.trans _ _ _ hab.1 hbc.1, hS.trans _ _ _ hab.2 hbc.2⟩
  insert record hrecord cells hc db db' id h :=
    ⟨hR.insert record hrecord cells hc db db' id h, hS.insert record hrecord cells hc db db' id h⟩
  update record hrecord cells hc filter s hs db db' n h :=
    ⟨hR.update record hrecord cells hc filter s hs db db' n h,
      hS.update record hrecord cells hc filter s hs db db' n h⟩
  delete hremoves filter s hs db db' n h :=
    ⟨hR.delete hremoves filter s hs db db' n h, hS.delete hremoves filter s hs db db' n h⟩

end Operation

end RecordStore
