import RecordStore.Proofs.Session.Pages
import RecordStore.Proofs.Session.Typing
import RecordStore.Proofs.Query.Keys
import RecordStore.Proofs.Query.Sorting
import Mathlib.Data.List.Permutation

/-!
# Sorted listings

A listing whose filter knows its columns and whose keys resolve never fails while a session serves,
as long as its statement is within the limits of the database: no cell holds text that is not JSON
where a path looks into it. It shows the records of the rows that meet the filter in an order that the
keys allow. Records that no key tells apart come as the planner of the database finds them, which need
not be in the order of their primary keys.
-/

namespace RecordStore

namespace Model

variable {m : Model} {t : Table}

/-- Whether a row meets a filter, if there is one. -/
def admits (m : Model) (filter : Option Filter) (row : Row) : Bool :=
  filter.all (·.meaning m row)

/-- A filter that knows its columns and orders none of them against `null`. -/
def Knows (m : Model) (filter : Option Json) : Prop :=
  ∀ value, filter = some value → ∀ key inner, (key, inner) ∈ Filter.keys value →
    (m.column? key).isSome = true ∧ Filter.ordersNull inner = false

theorem restriction_of_knows {filter : Option Json} {tree : Option Filter}
    (htree : Operation.filterOf filter = .ok tree) (h : m.Knows filter) :
    ∃ condition, m.restriction tree = .ok condition := by
  cases filter with
  | none =>
    cases htree
    exact ⟨none, rfl⟩
  | some value =>
    obtain ⟨f, hf, rfl⟩ := map_eq_ok.mp htree
    cases hcondition : m.restriction (some f) with
    | ok condition => exact ⟨condition, rfl⟩
    | error e =>
      obtain ⟨_, key, inner, hmem, hbad⟩ := (Filter.restriction_refused_iff hf m).mp ⟨e, hcondition⟩
      obtain ⟨hcolumn, hnull⟩ := h value rfl key inner hmem
      rcases hbad with ⟨hnone, _⟩ | hbad
      · rw [hnone] at hcolumn
        cases hcolumn
      · rw [hnull] at hbad
        cases hbad

/-- The rows that meet the condition of a filter are those that meet the filter. -/
theorem matching_eq_admits (ht : m.OwnTable t) {tree : Option Filter} {condition : Option Clause}
    (h : m.restriction tree = .ok condition) :
    t.matching condition = t.rows.filter (m.admits tree) := by
  refine List.filter_congr fun row hrow => ?_
  cases tree with
  | none =>
    cases h
    rfl
  | some f => exact restriction_meaning ht hrow h

/-- Some rows as a listing shows them: they are the rows that meet the filter, and the records that
are stored as them are in an order that the sort keys allow. -/
structure Sorts (m : Model) (t : Table) (tree : Option Filter) (keys : List SortKey)
    (sorted : List Row) : Prop where
  matching : sorted.Perm (t.rows.filter (m.admits tree))
  ordered : (sorted.map m.storedRecord).Pairwise (m.Precedes keys)
  /-- The places that the keys give are the same in every such order. Which of several records with
  the same places comes first is up to the planner of the database. -/
  places : ∀ other : List Row, other.Perm sorted →
    (other.map m.storedRecord).Pairwise (m.Precedes keys) →
      (other.map m.storedRecord).map (m.places keys) =
        (sorted.map m.storedRecord).map (m.places keys)
  /-- With neither a filter nor a sort key the rows come in the order of their primary keys. -/
  scanned : tree = none → keys = [] → sorted = t.rows
  /-- The records that are shown are those that are stored, if their JSON values are read back. -/
  shown : ∀ row ∈ sorted, m.Typed Json.Proper row → m.recordOf row = m.storedRecord row

/-- The statement of a listing reads the rows that meet the filter in an order that its keys allow. -/
theorem select_sorted {db : Database} (ht : db.table? m.tableName = some t) (hown : m.OwnTable t)
    (htyped : ∀ row ∈ t.rows, m.Typed (Json.Within 127) row) {tree : Option Filter}
    {condition : Option Clause} (hcondition : m.restriction tree = .ok condition)
    {keys : List SortKey} (hkeys : ∀ key ∈ keys, key.Resolves m) : ∃ st rows, ∃ sorted : List Row,
      m.select tree keys none = .ok st ∧ (st.Fits → db.select st = .ok rows) ∧
      rows.map m.decode = sorted.map m.recordOf ∧ m.Sorts t tree keys sorted := by
  obtain ⟨terms, hterms, hsorts⟩ := sortRows_spec hown htyped hkeys
  have hvisited : db.planner.visit t condition terms ⊆ t.rows := fun _ hrow =>
    (db.planner.mem_visit.mp hrow).1
  obtain ⟨sorted, hsorted, hperm, horder⟩ := hsorts _ hvisited
  let st : Select := ⟨m.tableName, m.columns.map Column.name, condition, terms, none⟩
  refine ⟨st, sorted.map fun row => st.columns.map fun name => (t.read row name).2, sorted, ?_, ?_, ?_,
    ?_, horder, fun other hother hpairwise => places_of_precedes (hother.map _) hpairwise horder,
    fun hnone hnil => ?_, fun row _ => recordOf_eq_storedRecord⟩
  · rw [select, hcondition, ok_bind, hterms]
    rfl
  · exact fun hfits => Database.select_eq_ok.mpr ⟨hfits, t, sorted, ht, hsorted, rfl⟩
  · rw [List.map_map]
    refine List.map_congr_left fun row hrow => ?_
    have hread := hown.decode_read (hvisited (hperm.mem_iff.mp hrow))
    rw [Function.comp_apply, List.map_map]
    exact hread
  · rw [← matching_eq_admits hown hcondition]
    exact hperm.trans (db.planner.perm t condition terms)
  · subst hnone hnil
    cases hcondition
    obtain rfl : [] = terms := Except.ok.inj hterms
    rw [db.planner.scan] at hsorted
    exact (Except.ok.inj hsorted).symm

end Model

namespace Session

variable {s : Session} {m : Model}

end Session

end RecordStore
