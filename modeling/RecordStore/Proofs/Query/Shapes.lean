import RecordStore.Proofs.Query.Selection

/-!
# What the text of a statement depends on

The text of a statement depends on the shape of what is asked for and not on the values in it. Of
the value of a comparison it shows whether it is `null`, and of the list of a comparison how many items
are not `null` and whether one is. Everything else goes into the parameters. So what is asked for in
one shape is written in one text, or refused with one error, and the form of a statement is what is
left of its pieces when the parameters are blanked out.
-/

namespace RecordStore

/-! ## Forms -/

namespace Piece

/-- A piece without the value of a parameter. -/
def blank : Piece → Piece
  | .param _ => .param .null
  | .fixed chars => .fixed chars
  | .name s => .name s

/-- The pieces of a statement without the values of the parameters. -/
def form (pieces : List Piece) : List Piece := pieces.map blank

theorem chars_blank (piece : Piece) : piece.blank.chars = piece.chars := by
  cases piece <;> rfl

theorem text_form (pieces : List Piece) : text (form pieces) = text pieces := by
  simp only [text, form, List.flatMap_map, chars_blank]

theorem params_form (pieces : List Piece) :
    (params (form pieces)).length = (params pieces).length := by
  induction pieces with
  | nil => rfl
  | cons piece rest ih =>
    cases piece with
    | param value => exact congrArg (· + 1) ih
    | fixed | name => exact ih

theorem form_cons (piece : Piece) (rest : List Piece) :
    form (piece :: rest) = piece.blank :: form rest := rfl

theorem form_append (ps qs : List Piece) : form (ps ++ qs) = form ps ++ form qs := List.map_append

theorem form_joinWith (separator : List Piece) (parts : List (List Piece)) :
    form (joinWith separator parts) = joinWith (form separator) (parts.map form) := by
  have hform : form = List.flatMap fun piece => [piece.blank] := by
    funext pieces
    exact List.map_eq_flatMap
  rw [hform, flatMap_joinWith]

end Piece

namespace Clause

open Piece

/-- The form of a condition. -/
def form (clause : Clause) : List Piece := Piece.form clause.pieces

/-- Of operands the form shows how many there are. -/
theorem form_operandPieces {operands operands' : List SqlValue}
    (h : operands.length = operands'.length) :
    Piece.form (operandPieces operands) = Piece.form (operandPieces operands') := by
  have hblank : ∀ values : List SqlValue,
      (values.map fun value => [Piece.param value]).map Piece.form =
        List.replicate values.length [.param .null] := by
    intro values
    rw [List.map_map]
    show values.map (fun _ => [Piece.param .null]) = _
    rw [List.map_const']
  rw [operandPieces, operandPieces, form_cons, form_cons, form_append, form_append, commas, commas,
    form_joinWith, form_joinWith, hblank, hblank, h]

theorem form_parts (separator : List Piece) {parts parts' : List Clause}
    (h : parts.map form = parts'.map form) :
    Piece.form (joinWith separator (partPieces parts)) =
      Piece.form (joinWith separator (partPieces parts')) := by
  rw [form_joinWith, form_joinWith, partPieces_eq_map, partPieces_eq_map, List.map_map,
    List.map_map]
  exact congrArg (joinWith (Piece.form separator)) h

theorem form_all {parts parts' : List Clause} (h : parts.map form = parts'.map form) :
    form (.all parts) = form (.all parts') := by
  rw [form, form, pieces, pieces, form_cons, form_cons, form_append, form_append, form_parts _ h]

theorem form_any {parts parts' : List Clause} (h : parts.map form = parts'.map form) :
    form (.any parts) = form (.any parts') := by
  rw [form, form, pieces, pieces, form_cons, form_cons, form_append, form_append, form_parts _ h]

theorem form_oneOf (column : String) {operands operands' : List SqlValue}
    (h : operands.length = operands'.length) :
    form (.oneOf column operands) = form (.oneOf column operands') := by
  rw [form, form, pieces, pieces, form_append, form_append, form_operandPieces h]

theorem form_noneOf (column : String) {operands operands' : List SqlValue}
    (h : operands.length = operands'.length) :
    form (.noneOf column operands) = form (.noneOf column operands') := by
  rw [form, form, pieces, pieces, form_append, form_append, form_operandPieces h]

/-- Several conditions as one, or the only one. -/
theorem form_joined {join : List Clause → Clause}
    (hjoin : ∀ parts parts' : List Clause, parts.map form = parts'.map form →
      form (join parts) = form (join parts'))
    {parts parts' : List Clause} (h : parts.map form = parts'.map form) :
    (joined join parts).map form = (joined join parts').map form := by
  match parts, parts' with
  | [], [] => rfl
  | [part], [part'] => exact congrArg some (List.cons.inj h).1
  | first :: second :: rest, first' :: second' :: rest' => exact congrArg some (hjoin _ _ h)
  | [], _ :: _ | _ :: _, [] => cases h
  | [_], _ :: _ :: _ | _ :: _ :: _, [_] => cases (List.cons.inj h).2

end Clause

/-! ## Shapes -/

/-- Two lists that membership is written alike for. -/
structure ItemsAlike (items items' : List Json) : Prop where
  length : (items.filter (¬ ·.isNull)).length = (items'.filter (¬ ·.isNull)).length
  empty : items = [] ↔ items' = []
  null : items.any Json.isNull = items'.any Json.isNull

/-- Two values that a comparison is written alike for. A comparison with the items of a list refuses
whatever is no list. -/
inductive Comparison.Alike (comparison : Comparison) : Json → Json → Prop
  | value {a b : Json} (hc : comparison.expectsList = false) (h : a.isNull = b.isNull) :
      Alike comparison a b
  | items {as bs : List Json} (hc : comparison.expectsList = true) (h : ItemsAlike as bs) :
      Alike comparison (.array as) (.array bs)
  | noList {a b : Json} (hc : comparison.expectsList = true) (ha : ∀ items, a ≠ .array items)
      (hb : ∀ items, b ≠ .array items) : Alike comparison a b

mutual

/-- Two filters with the same nesting, columns and comparisons, and with values alike. -/
inductive Filter.SameShape : Filter → Filter → Prop
  | all {parts parts' : List Filter} (h : Filter.SameShapes parts parts') :
      Filter.SameShape (.all parts) (.all parts')
  | any {parts parts' : List Filter} (h : Filter.SameShapes parts parts') :
      Filter.SameShape (.any parts) (.any parts')
  | condition {column : String} {comparison : Comparison} {a b : Json} (h : comparison.Alike a b) :
      Filter.SameShape (.condition ⟨column, comparison, a⟩) (.condition ⟨column, comparison, b⟩)

inductive Filter.SameShapes : List Filter → List Filter → Prop
  | nil : Filter.SameShapes [] []
  | cons {f f' : Filter} {rest rest' : List Filter} (first : Filter.SameShape f f')
      (others : Filter.SameShapes rest rest') : Filter.SameShapes (f :: rest) (f' :: rest')

end

mutual

theorem Filter.SameShape.isUnrestricted_eq : ∀ {f f' : Filter}, f.SameShape f' →
    f.isUnrestricted = f'.isUnrestricted
  | _, _, .all h => by
    rw [isUnrestricted, isUnrestricted, h.allUnrestricted_eq]
  | _, _, .any h => by
    rw [isUnrestricted, isUnrestricted, h.anyUnrestricted_eq]
    cases h <;> rfl
  | _, _, .condition _ => rfl

theorem Filter.SameShapes.allUnrestricted_eq : ∀ {parts parts' : List Filter},
    Filter.SameShapes parts parts' → allUnrestricted parts = allUnrestricted parts'
  | _, _, .nil => rfl
  | _, _, .cons first others => by
    rw [allUnrestricted, allUnrestricted, first.isUnrestricted_eq, others.allUnrestricted_eq]

theorem Filter.SameShapes.anyUnrestricted_eq : ∀ {parts parts' : List Filter},
    Filter.SameShapes parts parts' → anyUnrestricted parts = anyUnrestricted parts'
  | _, _, .nil => rfl
  | _, _, .cons first others => by
    rw [anyUnrestricted, anyUnrestricted, first.isUnrestricted_eq, others.anyUnrestricted_eq]

end

namespace Condition

variable {column : Column}

theorem membership_form (negated : Bool) {items items' : List Json} (h : ItemsAlike items items') :
    (membership column negated items).form = (membership column negated items').form := by
  have hlength : (column.operands items).length = (column.operands items').length := by
    simp only [Column.operands, List.length_map]
    exact h.length
  have hempty : column.operands items = [] ↔ column.operands items' = [] := by
    rw [← List.length_eq_zero_iff, ← List.length_eq_zero_iff, hlength]
  rw [membership_eq, membership_eq, h.null]
  simp only [h.empty, hempty]
  have hone := Clause.form_oneOf column.name hlength
  have hnone := Clause.form_noneOf column.name hlength
  split
  · rfl
  split
  · rfl
  split
  · exact Clause.form_all (congrArg (· :: [(Clause.isNotNull column.name).form]) hnone)
  · exact Clause.form_any (congrArg (· :: [(Clause.isNull column.name).form]) hnone)
  · exact Clause.form_any (congrArg (· :: [(Clause.isNull column.name).form]) hone)
  · exact hone

/-- A comparison is written in one form for values that are alike. -/
theorem clauseOn_form (name : String) (column : Column) {comparison : Comparison} {a b : Json}
    (h : comparison.Alike a b) :
    ((⟨name, comparison, a⟩ : Condition).clauseOn column).map Clause.form =
      ((⟨name, comparison, b⟩ : Condition).clauseOn column).map Clause.form := by
  cases h with
  | value hc hnull =>
    cases comparison with
    | equal =>
      simp only [clauseOn, hnull]
      split <;> rfl
    | notEqual =>
      simp only [clauseOn, hnull]
      split <;> rfl
    | greater | atLeast | less | atMost =>
      simp only [clauseOn, relate, hnull]
      split <;> rfl
    | oneOf | noneOf => cases hc
  | items hc halike =>
    cases comparison with
    | oneOf => exact congrArg Except.ok (membership_form false halike)
    | noneOf => exact congrArg Except.ok (membership_form true halike)
    | _ => cases hc
  | noList hc ha hb =>
    have hrefused : ∀ v : Json, (∀ items, v ≠ .array items) →
        (⟨name, comparison, v⟩ : Condition).clauseOn column =
          .error (.listExpected comparison.operator) := by
      intro v hv
      cases comparison with
      | oneOf | noneOf =>
        cases v with
        | array items => exact absurd rfl (hv items)
        | _ => rfl
      | _ => cases hc
    rw [hrefused a ha, hrefused b hb]

end Condition

namespace Model

variable (m : Model)

theorem parts_form {clauses clauses' : List (Option Clause)}
    (h : clauses.map (Option.map Clause.form) = clauses'.map (Option.map Clause.form)) :
    (clauses.filterMap id).map Clause.form = (clauses'.filterMap id).map Clause.form ∧
      clauses.any Option.isNone = clauses'.any Option.isNone := by
  constructor
  · have hparts := congrArg (List.filterMap id) h
    rw [List.filterMap_map, List.filterMap_map] at hparts
    rw [List.map_filterMap, List.map_filterMap]
    exact hparts
  · have hnone := congrArg (List.any · Option.isNone) h
    simpa only [List.any_map, Function.comp_def, Option.isNone_map] using hnone

mutual

/-- Filters of one shape are compiled to conditions of one form. -/
theorem compile_form : ∀ {f f' : Filter}, f.SameShape f' →
    (m.compile f).map (Option.map Clause.form) = (m.compile f').map (Option.map Clause.form)
  | _, _, .all h => by
    rw [compile, compile]
    refine map_bind_congr (compileParts_form h) fun clauses clauses' hforms => ?_
    rw [map_ok, map_ok, Clause.form_joined (fun _ _ => Clause.form_all) (parts_form hforms).1]
  | _, _, .any h => by
    rw [compile, compile]
    refine map_bind_congr (compileParts_form h) fun clauses clauses' hforms => ?_
    rw [map_ok, map_ok, (parts_form hforms).2]
    split
    · rfl
    · rw [Clause.form_joined (fun _ _ => Clause.form_any) (parts_form hforms).1]
  | _, _, @Filter.SameShape.condition name _ _ _ h => by
    rw [compile, compile]
    refine map_bind_congr (rfl : (m.resolve name).map id = _) fun column column' hcolumn => ?_
    obtain rfl : column = column' := hcolumn
    have hform := congrArg (Except.map some) (Condition.clauseOn_form name column h)
    rw [map_map, map_map] at hform
    rw [map_map, map_map]
    exact hform

theorem compileParts_form : ∀ {parts parts' : List Filter}, Filter.SameShapes parts parts' →
    (m.compileParts parts).map (List.map (Option.map Clause.form)) =
      (m.compileParts parts').map (List.map (Option.map Clause.form))
  | _, _, .nil => rfl
  | _, _, .cons first others => by
    rw [compileParts, compileParts]
    refine map_bind_congr (compile_form first) fun clause clause' hform => ?_
    refine map_bind_congr (compileParts_form others) fun clauses clauses' hforms => ?_
    rw [map_ok, map_ok, List.map_cons, List.map_cons, hform, hforms]

end

end Model

end RecordStore
