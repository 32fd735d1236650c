import RecordStore.Database.Ordering

/-!
# Planners

A statement says which rows it reads, and its order terms sort them. In which order it comes upon
them is up to the planner of the database: it picks a way through the table, and rows that the terms
do not tell apart stay in the order of that way. Nothing is said about this order here but what every
way keeps to.
-/

namespace RecordStore

/-- The ways that are picked through tables. A way is picked by what a statement restricts and by what
it sorts, not by how many rows of the answer are shown. -/
structure Planner where
  visit : Table → Option Clause → List OrderTerm → List Row
  /-- Every row that meets the condition is visited once. -/
  perm : ∀ t condition terms, (visit t condition terms).Perm (t.matching condition)
  /-- Where there is nothing to restrict and nothing to sort, the way is that of the keys. -/
  scan : ∀ t, visit t none [] = t.rows

namespace Table

def isUnique (t : Table) (name : String) : Bool :=
  t.columns.any fun spec => spec.unique && sameName spec.name name

/-- A row goes before the first of the given ones whose cell of a column is not below its own. -/
def insertBy (t : Table) (name : String) (row : Row) : List Row → List Row
  | [] => [row]
  | other :: rows =>
    if (t.read row name).2.order (t.read other name).2 = .gt then other :: t.insertBy name row rows
    else row :: other :: rows

/-- Rows in the order of the cells of a column. -/
def sortedBy (t : Table) (name : String) (rows : List Row) : List Row :=
  rows.foldr (t.insertBy name) []

theorem insertBy_perm (t : Table) (name : String) (row : Row) (rows : List Row) :
    (t.insertBy name row rows).Perm (row :: rows) := by
  induction rows with
  | nil => exact .refl _
  | cons other rows ih =>
    simp only [insertBy]
    split
    · exact (ih.cons other).trans (.swap row other rows)
    · exact .refl _

theorem sortedBy_perm (t : Table) (name : String) (rows : List Row) :
    (t.sortedBy name rows).Perm rows := by
  induction rows with
  | nil => exact .refl _
  | cons row rows ih => exact (t.insertBy_perm name row _).trans (ih.cons row)

end Table

/-- The unique column whose index leads to the rows that meet a condition: the column is compared by
order, or with a list. -/
def Clause.index? (t : Table) : Option Clause → Option String
  | some (.compare column relation _) =>
    if t.isUnique column ∧ relation ≠ .equal ∧ relation ≠ .notEqual then some column else none
  | some (.oneOf column _) => if t.isUnique column then some column else none
  | _ => none

/-- The planner that takes the index of a unique column where a single comparison asks for it, and
goes in the order of the keys otherwise. -/
def Planner.default : Planner where
  visit t condition _ :=
    match Clause.index? t condition with
    | some column => t.sortedBy column (t.matching condition)
    | none => t.matching condition
  perm t condition _ := by
    cases Clause.index? t condition with
    | none => exact .refl _
    | some column => exact t.sortedBy_perm column _
  scan t := List.filter_eq_self.mpr fun _ _ => rfl

end RecordStore
