import RecordStore.Proofs.Query.Meaning
import RecordStore.Proofs.Database.Limits

/-!
# Searches for the members of a record

The filter for a record becomes a conjunction of equalities, one for each member. What the conjunction
asks for depends on the number of the members alone.
-/

namespace RecordStore

namespace Model

variable {m : Model}

theorem compileParts_eq_mapM (parts : List Filter) :
    m.compileParts parts = parts.mapM m.compile := by
  induction parts with
  | nil => rfl
  | cons part rest ih =>
    rw [compileParts, List.mapM_cons, ih]
    rfl

/-- The condition that a column has a value is an equality. -/
theorem compile_equal {name : String} {value : Json} {condition : Option Clause}
    (h : m.compile (.condition ⟨name, .equal, value⟩) = .ok condition) :
    ∃ clause : Clause, clause.Equality ∧ condition = some clause := by
  simp only [compile, bind_eq_ok, map_eq_ok] at h
  obtain ⟨column, _, clause, hclause, rfl⟩ := h
  refine ⟨clause, ?_, rfl⟩
  simp only [Condition.clauseOn, Except.ok.injEq] at hclause
  split at hclause
  · exact hclause ▸ .isNull _
  · exact hclause ▸ .compare _ _

theorem restriction_matching_eq_ok {lookup : Record} {condition : Option Clause}
    (h : m.restriction (some (.matching lookup)) = .ok condition) :
    ∃ clauses : List Clause, (∀ clause ∈ clauses, clause.Equality) ∧
      clauses.length = lookup.length ∧ condition = Clause.joined .all clauses := by
  cases lookup with
  | nil =>
    cases h
    exact ⟨[], fun _ hclause => absurd hclause List.not_mem_nil, rfl, rfl⟩
  | cons member rest =>
    have hcompile : m.compile (.matching (member :: rest)) = .ok condition := h
    simp only [Filter.matching, compile, bind_eq_ok, Except.ok.injEq,
      compileParts_eq_mapM] at hcompile
    obtain ⟨found, hfound, rfl⟩ := hcompile
    have hequal : ∀ condition ∈ found,
        ∃ clause : Clause, clause.Equality ∧ condition = some clause := by
      intro condition hcondition
      obtain ⟨part, hpart, hcompiled⟩ := mem_of_mapM hfound hcondition
      obtain ⟨other, _, rfl⟩ := List.mem_map.mp hpart
      exact compile_equal hcompiled
    refine ⟨found.filterMap id, fun clause hclause => ?_, ?_, rfl⟩
    · obtain ⟨condition, hcondition, rfl⟩ := List.mem_filterMap.mp hclause
      obtain ⟨other, hother, heq⟩ := hequal _ hcondition
      exact Option.some.inj heq ▸ hother
    · have hall : ∀ condition ∈ found, (id condition : Option Clause).isSome := by
        intro condition hmem
        obtain ⟨clause, _, rfl⟩ := hequal condition hmem
        rfl
      rw [List.filterMap_length_eq_length.mpr hall, mapM_length hfound, List.length_map]

variable {condition : Option Clause} {held : Nat}

/-- A search for the members of a record fits, with a window or without, if they are fewer than there
may be levels. -/
theorem fit_matching {lookup : Record} (h : m.restriction (some (.matching lookup)) = .ok condition)
    (hheld : held + 6 ≤ symbolLimit) (window : Option RowWindow) :
    Fit (whereDemands held condition ++ windowDemands window) ↔ lookup.length < levelLimit := by
  obtain ⟨clauses, hequal, hlength, rfl⟩ := restriction_matching_eq_ok h
  rw [Clause.fit_joined_all hequal hheld window, hlength]

/-- A search for one value of a column fits. -/
theorem fit_equal {name : String} {value : Json}
    (h : m.restriction (some (.condition ⟨name, .equal, value⟩)) = .ok condition)
    (hheld : held + 6 ≤ symbolLimit) (window : Option RowWindow) :
    Fit (whereDemands held condition ++ windowDemands window) := by
  obtain ⟨clause, hequal, rfl⟩ := compile_equal h
  have hone : 1 < levelLimit := by decide
  exact (Clause.fit_joined_all (List.forall_mem_singleton.mpr hequal) hheld window).mpr hone

end Model

end RecordStore
