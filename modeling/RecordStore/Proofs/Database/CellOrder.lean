import RecordStore.Proofs.Database.Names

/-!
# The order of cells

A statement gives cells to columns by their names. If no two of them are for the same column, their
order does not matter: a row gets the same cells, the same constraints are checked, and a column that
the table does not have is met in any case, though perhaps not the same one first.
-/

namespace RecordStore

/-- No two cells are for the same column. -/
def CellsApart (cells : List (String × SqlValue)) : Prop :=
  cells.Pairwise fun a b => sameName a.1 b.1 = false

variable {cells cells' : List (String × SqlValue)}

theorem assigned?_perm (h : CellsApart cells) (hp : cells'.Perm cells) (name : String) :
    assigned? cells' name = assigned? cells name := by
  have hone : cells.Pairwise fun a b => ¬ (sameName a.1 name ∧ sameName b.1 name) := by
    refine h.imp fun {a b} hab hboth => ?_
    rw [sameName_trans hboth.1 (by rw [sameName_comm, hboth.2])] at hab
    cases hab
  rw [assigned?, assigned?, find?_perm hp hone]

theorem assigned?_reverse_perm (h : CellsApart cells) (hp : cells'.Perm cells) (name : String) :
    assigned? cells'.reverse name = assigned? cells.reverse name := by
  rw [assigned?_perm h ((List.reverse_perm cells').trans hp),
    assigned?_perm h (List.reverse_perm cells)]

/-- A cell is met in both orders, or in neither. -/
theorem find?_cases_perm (hp : cells'.Perm cells) (p : String × SqlValue → Bool) :
    cells.find? p = none ∧ cells'.find? p = none ∨
      ∃ a b, cells.find? p = some a ∧ cells'.find? p = some b := by
  have hnone : cells'.find? p = none ↔ cells.find? p = none := by
    simp only [List.find?_eq_none, hp.mem_iff]
  cases hfind : cells.find? p with
  | none => exact .inl ⟨rfl, hnone.mpr hfind⟩
  | some a =>
    cases hfind' : cells'.find? p with
    | none =>
      rw [hnone.mp hfind'] at hfind
      cases hfind
    | some b => exact .inr ⟨a, b, rfl, rfl⟩

namespace Table

variable (t : Table) (h : CellsApart cells) (hp : cells'.Perm cells)
include h hp

theorem newCells_perm : t.newCells cells' = t.newCells cells := by
  simp only [newCells, assigned?_perm h hp]

theorem newId_perm : t.newId cells' = t.newId cells := by
  simp only [newId, assigned?_reverse_perm h hp]

theorem insert_together (name : String) :
    Together (· = ·) (t.insert name cells) (t.insert name cells') := by
  unfold insert
  rcases find?_cases_perm hp fun cell => ¬ t.hasColumn cell.1 with ⟨hnone, hnone'⟩ | ⟨a, b, ha, hb⟩
  · rw [hnone, hnone', t.newId_perm h hp, t.newCells_perm h hp]
    exact together_self (fun _ => rfl) _
  · rw [ha, hb]
    exact .error

omit t in
theorem updateRow_perm : updateRow cells' = updateRow cells := by
  funext u row
  simp only [updateRow, assign, assigned?_reverse_perm h hp]

theorem update_together (condition : Option Clause) :
    Together (· = ·) (t.update cells condition) (t.update cells' condition) := by
  unfold update
  rcases find?_cases_perm hp fun cell => ¬ t.hasColumn cell.1 with ⟨hnone, hnone'⟩ | ⟨a, b, ha, hb⟩
  · rw [hnone, hnone', updateRow_perm h hp]
    exact together_self (fun _ => rfl) _
  · rw [ha, hb]
    exact .error

end Table

namespace Database

variable (db : Database)

/-- The parameters of cells are as many in every order. -/
theorem parameters_perm {cells cells' : List (String × SqlValue)} (hp : cells'.Perm cells) :
    cells'.map (fun _ => Demand.parameter) = cells.map fun _ => Demand.parameter := by
  rw [List.map_const', List.map_const', hp.length_eq]

theorem insert_together (h : CellsApart cells) (hp : cells'.Perm cells) (name : String) :
    Together (· = ·) (db.insert ⟨name, cells⟩) (db.insert ⟨name, cells'⟩) := by
  have hfit : Fit (Insert.demands ⟨name, cells⟩) ↔ Fit (Insert.demands ⟨name, cells'⟩) := by
    rw [Insert.demands, Insert.demands, parameters_perm hp]
  apply (readText_together hfit).bind
  rintro _ _ rfl
  apply together_bind
  intro t
  apply (t.insert_together h hp name).bind
  rintro added _ rfl
  exact together_self (fun _ => rfl) _

theorem update_together (h : CellsApart cells) (hp : cells'.Perm cells) (name : String)
    (condition : Option Clause) :
    Together (· = ·) (db.update ⟨name, cells, condition⟩) (db.update ⟨name, cells', condition⟩) := by
  have hfit : Fit (Update.demands ⟨name, cells, condition⟩) ↔
      Fit (Update.demands ⟨name, cells', condition⟩) := by
    rw [Update.demands, Update.demands, parameters_perm hp]
  have hsize : Together (· = ·) (checkSize "columns in set list" cells.length)
      (checkSize "columns in set list" cells'.length) :=
    hp.length_eq ▸ together_self (fun _ => rfl) _
  apply (readText_together hfit).bind
  rintro _ _ rfl
  apply hsize.bind
  rintro _ _ rfl
  apply together_bind
  intro t
  apply (t.update_together h hp condition).bind
  rintro changed _ rfl
  exact together_self (fun _ => rfl) _

end Database

end RecordStore
