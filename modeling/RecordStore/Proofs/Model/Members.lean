import Mathlib.Data.List.Perm.Subperm
import RecordStore.Proofs.Model.Refusals
import RecordStore.Proofs.Database.CellOrder

/-!
# The members of a record

A record whose keys differ means the same whatever the order of its members: a model that accepts it
accepts it in every order, and a table that gets a new row for it gets the same row.
-/

namespace RecordStore

namespace Json

theorem DistinctKeys.perm {record other : Record} (h : DistinctKeys record) (hp : other.Perm record) :
    DistinctKeys other := (hp.symm.pairwise_iff fun hab heq => hab heq.symm).mp h

theorem member?_eq_some {record : Record} {key : String} {value : Json}
    (h : member? record key = some value) : (key, value) ∈ record := by
  obtain ⟨⟨name, found⟩, hfound, rfl⟩ := Option.map_eq_some_iff.mp h
  have hname : name = key := by simpa using List.find?_some hfound
  exact hname ▸ List.mem_of_find?_eq_some hfound

/-- The order of members with different keys does not matter for finding one of them. -/
theorem member?_perm {record other : Record} (h : DistinctKeys record) (hp : other.Perm record)
    (key : String) : member? other key = member? record key := by
  have hone : record.Pairwise fun a b => ¬ (decide (a.1 = key) ∧ decide (b.1 = key)) := by
    refine h.imp fun hab heq => hab ?_
    simp only [decide_eq_true_eq] at heq
    exact heq.1.trans heq.2.symm
  rw [member?, member?, find?_perm hp hone]

theorem member?_reverse {record : Record} (h : DistinctKeys record) (key : String) :
    member? record.reverse key = member? record key := member?_perm h (List.reverse_perm record) key

/-- Records of different keys that have the same members have them in some order. -/
theorem perm_of_member? {record other : Record} (h : DistinctKeys record) (h' : DistinctKeys other)
    (hsame : ∀ key, member? other key = member? record key) : other.Perm record := by
  have hnodup {r : Record} (hr : DistinctKeys r) : r.Nodup :=
    hr.imp fun hab heq => hab (congrArg Prod.fst heq)
  rw [List.perm_ext_iff_of_nodup (hnodup h') (hnodup h)]
  intro member
  constructor
  · intro hm
    exact member?_eq_some ((hsame _).symm.trans (member?_of_distinct h' hm))
  · intro hm
    exact member?_eq_some ((hsame _).trans (member?_of_distinct h hm))

theorem member?_cons (first : String × Json) (rest : Record) (name : String) :
    member? (first :: rest) name = if first.1 = name then some first.2 else member? rest name := by
  rw [member?, List.find?_cons]
  by_cases hname : first.1 = name <;> simp [hname, member?]

theorem member?_setMember (members : Record) (key : String) (value : Json) (name : String) :
    member? (setMember members key value) name =
      if key = name then some value else member? members name := by
  induction members with
  | nil => exact member?_cons (key, value) [] name
  | cons first rest ih =>
    rw [setMember]
    split
    next hkey =>
      rw [member?_cons, member?_cons, hkey]
      split <;> rfl
    next hkey =>
      rw [member?_cons, member?_cons, ih]
      by_cases hname : first.1 = name
      · have hne : key ≠ name := fun heq => hkey (hname.trans heq.symm)
        rw [if_pos hname, if_pos hname, if_neg hne]
      · rw [if_neg hname, if_neg hname]

/-- What is set is found, and what was there before otherwise. -/
theorem member?_setMembers {members more : Record} (h : DistinctKeys more) (name : String) :
    member? (setMembers members more) name = (member? more name).or (member? members name) := by
  induction more generalizing members with
  | nil => rfl
  | cons first rest ih =>
    obtain ⟨hfirst, hrest⟩ := List.pairwise_cons.mp h
    have hstep : setMembers members (first :: rest) =
        setMembers (setMember members first.1 first.2) rest := rfl
    rw [hstep, ih hrest, member?_setMember, member?_cons]
    by_cases hname : first.1 = name
    · have hnone : member? rest name = none := by
        rw [member?, Option.map_eq_none_iff, List.find?_eq_none]
        intro member hmember heq
        exact hfirst member hmember (hname.trans (of_decide_eq_true heq).symm)
      rw [if_pos hname, if_pos hname, hnone]
      rfl
    · rw [if_neg hname, if_neg hname]

/-- The union of two records does not depend on their orders. -/
theorem setMembers_perm {members members' more more' : Record} (h : DistinctKeys members)
    (hmore : DistinctKeys more) (hp : members'.Perm members) (hp' : more'.Perm more) :
    (setMembers members' more').Perm (setMembers members more) := by
  have hdistinct := distinctKeys_setMembers h more
  have hdistinct' := distinctKeys_setMembers (h.perm hp) more'
  refine perm_of_member? hdistinct hdistinct' fun key => ?_
  rw [member?_setMembers (hmore.perm hp'), member?_setMembers hmore, member?_perm hmore hp',
    member?_perm h hp]

end Json

namespace Model

variable {m : Model} {allowId : Bool} {record other : Record} {cells : List (String × SqlValue)}

/-- What may be changed may also be given to a new record. -/
theorem encode_allowId (h : m.encode false record = .ok cells) : m.encode true record = .ok cells := by
  have hmember : ∀ name value entry, m.encodeMember false name value = .ok entry →
      m.encodeMember true name value = .ok entry := by
    intro name value entry hentry
    have hne := encodeMember_ne_id hentry
    unfold encodeMember at hentry ⊢
    split at hentry
    next hcolumn => exact absurd hcolumn hne
    next => exact hentry
    next => cases hentry
  exact mapM_imp (fun member entry hentry => hmember _ _ entry hentry) h

/-- A record is accepted in every order of its members or in none, and is encoded in that order. -/
theorem encode_together (m : Model) (allowId : Bool) (hp : other.Perm record) :
    Together (fun cells cells' => cells'.Perm cells) (m.encode allowId record)
      (m.encode allowId other) := together_mapM hp

theorem encode_perm (h : m.encode allowId record = .ok cells) (hp : other.Perm record) :
    ∃ cells', m.encode allowId other = .ok cells' ∧ cells'.Perm cells :=
  (h ▸ m.encode_together allowId hp).exists_ok

/-- An encoded record has a cell for each of its keys. -/
theorem keys_of_encode (h : m.encode allowId record = .ok cells) :
    cells.map Prod.fst = record.map Prod.fst :=
  map_of_mapM h fun _ _ hentry => (encodeMember_eq_ok hentry).1

theorem column_of_encode (h : m.encode allowId record = .ok cells) {cell : String × SqlValue}
    (hcell : cell ∈ cells) : ∃ column ∈ m.columns, column.name = cell.1 := by
  obtain ⟨member, _, hentry⟩ := mem_of_mapM h hcell
  obtain ⟨hname, column, hfound, _⟩ := encodeMember_eq_ok hentry
  exact ⟨column, (column?_name hfound).1, (column?_name hfound).2.trans hname.symm⟩

/-- A record of different keys gives no more cells than the model has columns. -/
theorem length_of_encode (hd : Json.DistinctKeys record) (h : m.encode allowId record = .ok cells) :
    cells.length ≤ m.columns.length := by
  have hnodup : (cells.map Prod.fst).Nodup := by
    rw [keys_of_encode h]
    exact List.pairwise_map.mpr hd
  have hsub : cells.map Prod.fst ⊆ m.columns.map Column.name := by
    intro name hname
    obtain ⟨cell, hcell, rfl⟩ := List.mem_map.mp hname
    obtain ⟨column, hcolumn, heq⟩ := column_of_encode h hcell
    exact List.mem_map.mpr ⟨column, hcolumn, heq⟩
  have hle := (List.subperm_of_subset hnodup hsub).length_le
  rwa [List.length_map, List.length_map] at hle

/-- The row of such a record is within the limits if the model is narrow. -/
theorem fit_insert_of_encode (hm : m.Narrow) (hd : Json.DistinctKeys record)
    (h : m.encode allowId record = .ok cells) : Fit (m.insert cells).demands :=
  fit_insert_iff.mpr (Nat.le_trans (length_of_encode hd h) (Nat.le_trans hm (by decide)))

/-- If the names of the columns differ without regard to case, those of encoded cells do. -/
theorem cellsApart_of_encode (hcolumns : m.columns.Pairwise fun a b => sameName a.name b.name = false)
    (hd : Json.DistinctKeys record) (h : m.encode allowId record = .ok cells) :
    CellsApart cells := by
  have hsymm : Std.Symm fun a b : Column => sameName a.name b.name = false :=
    ⟨fun a b hab => (sameName_comm b.name a.name).trans hab⟩
  have hkeys : (cells.map Prod.fst).Pairwise (· ≠ ·) := by
    rw [keys_of_encode h]
    exact List.pairwise_map.mpr hd
  refine (List.pairwise_map.mp hkeys).imp_of_mem fun {a b} ha hb hne => ?_
  obtain ⟨column, hmem, hname⟩ := column_of_encode h ha
  obtain ⟨column', hmem', hname'⟩ := column_of_encode h hb
  rw [← hname, ← hname']
  exact hcolumns.forall hmem hmem' fun heq => hne (hname.symm.trans (heq ▸ hname'))

/-- A table gets the same row for a record in whatever order its members are. -/
theorem OwnTable.insert_perm {t : Table} (ht : m.OwnTable t) (h : m.encode true record = .ok cells)
    (hd : Json.DistinctKeys record) {cells' : List (String × SqlValue)}
    (h' : m.encode true other = .ok cells') (hp : cells'.Perm cells) (name : String) :
    t.insert name cells' = t.insert name cells := by
  have hapart := cellsApart_of_encode ht.names_apart hd h
  rw [ht.insert_eq h, ht.insert_eq h', t.newId_perm hapart hp, t.newCells_perm hapart hp]

end Model

end RecordStore
