import RecordStore.Proofs.Outcome
import RecordStore.Database.Basic

/-!
# Statements within the limits

A statement is read to its end exactly if no demand of it goes beyond its limit: the parameters in
all, and the symbols and the levels at every place. Longer conditions and more parameters ask for
more, so that a statement fits if a longer one does.
-/

namespace RecordStore

/-- The symbols or the levels at a place are not too many. Parameters are counted in all. -/
def Demand.Granted : Demand → Prop
  | .parameter => True
  | .symbols n => n ≤ symbolLimit
  | .levels n => n ≤ levelLimit

instance (d : Demand) : Decidable d.Granted :=
  match d with
  | .parameter => .isTrue trivial
  | .symbols n => inferInstanceAs (Decidable (n ≤ symbolLimit))
  | .levels n => inferInstanceAs (Decidable (n ≤ levelLimit))

/-- No demand of a statement is too much. -/
structure Fit (demands : List Demand) : Prop where
  parameters : demands.count .parameter ≤ parameterLimit
  granted : ∀ d ∈ demands, d.Granted

namespace Fit

variable {demands demands' : List Demand}

instance : Decidable (Fit demands) :=
  decidable_of_iff (demands.count .parameter ≤ parameterLimit ∧ ∀ d ∈ demands, d.Granted)
    ⟨fun h => ⟨h.1, h.2⟩, fun h => ⟨h.1, h.2⟩⟩

theorem append_iff : Fit (demands ++ demands') ↔
    demands.count .parameter + demands'.count .parameter ≤ parameterLimit ∧
      (∀ d ∈ demands, d.Granted) ∧ ∀ d ∈ demands', d.Granted := by
  constructor
  · intro h
    refine ⟨?_, List.forall_mem_append.mp h.granted⟩
    rw [← List.count_append]
    exact h.parameters
  · intro h
    refine ⟨?_, List.forall_mem_append.mpr h.2⟩
    rw [List.count_append]
    exact h.1

theorem nil : Fit [] := ⟨Nat.zero_le _, fun _ h => absurd h List.not_mem_nil⟩

theorem of_append_left (h : Fit (demands ++ demands')) : Fit demands := by
  obtain ⟨hparameters, hgranted, _⟩ := append_iff.mp h
  exact ⟨by omega, hgranted⟩

end Fit

/-- Whether a statement is refused since it asks for too much. -/
def DatabaseFault.isLimit : DatabaseFault → Bool
  | .tooManyTerms _ | .tooManyParameters .. | .tooManyLevels _ | .stackOverflow => true
  | _ => false

/-- What is refused asks for too much. -/
def Limited {α : Type} (x : Except DatabaseFault α) : Prop :=
  ∀ cause, x = .error cause → cause.isLimit = true

theorem limited_grant (pieces : List Piece) (parameters : Nat) (d : Demand) :
    Limited (grant pieces parameters d) := by
  intro cause h
  cases d with
  | parameter | symbols | levels =>
    simp only [grant] at h
    split at h
    · cases h
      rfl
    · cases h

/-- A demand is granted if there is room for it, and only a parameter takes room from the next. -/
theorem grant_eq_ok {pieces : List Piece} {parameters n : Nat} {d : Demand}
    (h : parameters ≤ parameterLimit) : grant pieces parameters d = .ok n ↔
      n = parameters + [d].count .parameter ∧ n ≤ parameterLimit ∧ d.Granted := by
  cases d with
  | parameter =>
    simp only [grant, List.count_singleton_self, Demand.Granted, and_true]
    split
    next hfull =>
      constructor
      · intro hok
        cases hok
      · rintro ⟨hn, hle⟩
        omega
    next hroom =>
      rw [Except.ok.injEq]
      constructor
      · rintro rfl
        exact ⟨rfl, by omega⟩
      · exact fun hn => hn.1.symm
  | symbols m | levels m =>
    simp only [grant, Demand.Granted, List.count_singleton, reduceCtorEq, beq_iff_eq, if_false]
    split
    next hmore =>
      constructor
      · intro hok
        cases hok
      · exact fun hn => absurd hn.2.2 (Nat.not_le_of_lt hmore)
    next hroom =>
      rw [Except.ok.injEq]
      constructor
      · rintro rfl
        exact ⟨rfl, h, Nat.le_of_not_lt hroom⟩
      · exact fun hn => hn.1.symm

theorem foldlM_grant_eq_ok {pieces : List Piece} {demands : List Demand} {parameters n : Nat}
    (h : parameters ≤ parameterLimit) : demands.foldlM (grant pieces) parameters = .ok n ↔
      n = parameters + demands.count .parameter ∧ n ≤ parameterLimit ∧ ∀ d ∈ demands, d.Granted := by
  induction demands generalizing parameters with
  | nil =>
    simp only [List.foldlM_nil, pure, Except.pure, Except.ok.injEq, List.count_nil, Nat.add_zero,
      List.not_mem_nil, false_imp_iff, implies_true, and_true]
    constructor
    · rintro rfl
      exact ⟨rfl, h⟩
    · exact fun hn => hn.1.symm
  | cons d rest ih =>
    have hcount : (d :: rest).count .parameter = [d].count .parameter + rest.count .parameter := by
      rw [← List.singleton_append, List.count_append]
    rw [List.foldlM_cons, bind_eq_ok, hcount, List.forall_mem_cons]
    constructor
    · rintro ⟨parameters', hfirst, hrest⟩
      obtain ⟨rfl, hle, hd⟩ := (grant_eq_ok h).mp hfirst
      obtain ⟨hn, hlimit, hgranted⟩ := (ih hle).mp hrest
      exact ⟨by omega, hlimit, hd, hgranted⟩
    · rintro ⟨hn, hlimit, hd, hgranted⟩
      have hle : parameters + [d].count .parameter ≤ parameterLimit := by omega
      exact ⟨_, (grant_eq_ok h).mpr ⟨rfl, hle, hd⟩, (ih hle).mpr ⟨by omega, hlimit, hgranted⟩⟩

/-! ## Equalities

A conjunction of equalities asks for one more level with each of them, and for nothing else that
could be too much. -/

/-- A condition that a column has a value or is empty. -/
inductive Clause.Equality : Clause → Prop
  | compare (column : String) (operand : SqlValue) : Equality (.compare column .equal operand)
  | isNull (column : String) : Equality (.isNull column)

namespace Clause

variable {held front : Nat} {part : Clause} {parts : List Clause}

theorem Equality.levels_eq (h : part.Equality) : part.levels = 2 := by
  cases h <;> rfl

theorem Equality.granted (h : part.Equality) (hheld : held + 3 ≤ symbolLimit) :
    ∀ d ∈ part.demands held, d.Granted := by
  cases h with
  | compare => exact List.forall_mem_cons.mpr ⟨hheld, List.forall_mem_singleton.mpr trivial⟩
  | isNull => exact List.forall_mem_singleton.mpr hheld

theorem Equality.count_le (h : part.Equality) : (part.demands held).count .parameter ≤ 1 := by
  cases h <;> simp [demands]

theorem partDemands_granted_iff (h : ∀ part ∈ parts, part.Equality)
    (hheld : held + 6 ≤ symbolLimit) (hfront : 2 ≤ front) (hlevels : front ≤ levelLimit) :
    (∀ d ∈ partDemands held (some front) parts, d.Granted) ↔ front + parts.length ≤ levelLimit := by
  induction parts generalizing front with
  | nil => simpa [partDemands] using hlevels
  | cons part rest ih =>
    obtain ⟨hpart, hrest⟩ := List.forall_mem_cons.mp h
    have hchain : chain front (levels part) = front + 1 := by
      rw [hpart.levels_eq, chain, Nat.max_eq_left hfront]
    rw [partDemands, hchain, List.forall_mem_append, List.forall_mem_cons, List.length_cons]
    constructor
    · rintro ⟨_, hlevel, hall⟩
      have hlimit : front + 1 ≤ levelLimit := hlevel
      have := (ih hrest (by omega) hlimit).mp hall
      omega
    · intro hlimit
      have hlevel : front + 1 ≤ levelLimit := by omega
      exact ⟨hpart.granted (by omega), hlevel, (ih hrest (by omega) hlevel).mpr (by omega)⟩

theorem partDemands_count_le (h : ∀ part ∈ parts, part.Equality) (before : Option Nat) :
    (partDemands held before parts).count .parameter ≤ parts.length := by
  induction parts generalizing before with
  | nil => exact Nat.zero_le _
  | cons part rest ih =>
    obtain ⟨hpart, hrest⟩ := List.forall_mem_cons.mp h
    cases before with
    | none =>
      have hfirst : (part.demands (held + 1)).count Demand.parameter ≤ 1 := hpart.count_le
      have hlater := ih hrest (some (levels part))
      rw [partDemands, List.count_append, List.length_cons]
      omega
    | some front =>
      have hfirst : (part.demands (held + 3)).count Demand.parameter ≤ 1 := hpart.count_le
      have hlater := ih hrest (some (chain front (levels part)))
      have hlevel : (.levels (chain front (levels part)) : Demand) ≠ .parameter := nofun
      rw [partDemands, List.count_append, List.count_cons_of_ne hlevel, List.length_cons]
      omega

theorem demands_joined_all (part next : Clause) (rest : List Clause) :
    whereDemands held (joined .all (part :: next :: rest)) = .symbols (held + 1) ::
      (partDemands held none (part :: next :: rest) ++ [.symbols (held + 3)]) := rfl

/-- Equalities that are joined, if there are any, are as many as there may be levels below the
first. -/
theorem joined_all_granted_iff (h : ∀ part ∈ parts, part.Equality) (hheld : held + 6 ≤ symbolLimit) :
    (∀ d ∈ whereDemands held (joined .all parts), d.Granted) ↔ parts.length < levelLimit := by
  match parts with
  | [] => simp [joined, whereDemands, levelLimit]
  | [part] =>
    have hgranted : ∀ d ∈ part.demands held, d.Granted :=
      (List.forall_mem_singleton.mp h).granted (by omega)
    exact iff_of_true hgranted (show 1 < levelLimit by decide)
  | part :: next :: rest =>
    obtain ⟨hpart, hrest⟩ := List.forall_mem_cons.mp h
    have hfirst : ∀ d ∈ part.demands (held + 1), d.Granted := hpart.granted (by omega)
    have hopened : (Demand.symbols (held + 1)).Granted := by
      show held + 1 ≤ symbolLimit
      omega
    have hclosed : (Demand.symbols (held + 3)).Granted := by
      show held + 3 ≤ symbolLimit
      omega
    have hchain := partDemands_granted_iff hrest hheld (Nat.le_refl 2) (by decide)
    rw [demands_joined_all, partDemands, hpart.levels_eq, List.forall_mem_cons,
      List.forall_mem_append, List.forall_mem_append, List.forall_mem_singleton, hchain]
    constructor
    · rintro ⟨_, ⟨_, hlength⟩, _⟩
      simp only [List.length_cons] at hlength ⊢
      omega
    · intro hlength
      simp only [List.length_cons] at hlength ⊢
      exact ⟨hopened, ⟨hfirst, by omega⟩, hclosed⟩

theorem joined_all_count_le (h : ∀ part ∈ parts, part.Equality) :
    (whereDemands held (joined .all parts)).count .parameter ≤ parts.length := by
  match parts with
  | [] => exact Nat.zero_le _
  | [part] => exact (List.forall_mem_singleton.mp h).count_le
  | part :: next :: rest =>
    have hparts : (partDemands held none (part :: next :: rest)).count Demand.parameter ≤ _ :=
      partDemands_count_le h none
    rw [demands_joined_all, List.count_cons, List.count_append]
    simpa using hparts

/-- A conjunction of equalities fits, with a window or without, if they are fewer than there may be
levels. -/
theorem fit_joined_all (h : ∀ part ∈ parts, part.Equality) (hheld : held + 6 ≤ symbolLimit)
    (window : Option RowWindow) :
    Fit (whereDemands held (joined .all parts) ++ windowDemands window) ↔
      parts.length < levelLimit := by
  have hgranted : ∀ d ∈ windowDemands window, d.Granted := by
    cases window <;> simp [windowDemands, Demand.Granted]
  have hcount : (whereDemands held (joined .all parts)).count Demand.parameter ≤ _ :=
    joined_all_count_le h
  have hcount' : (windowDemands window).count .parameter ≤ 2 := by
    cases window <;> simp [windowDemands]
  rw [Fit.append_iff, joined_all_granted_iff h hheld, and_iff_left hgranted]
  constructor
  · exact And.right
  · intro hlength
    refine ⟨?_, hlength⟩
    unfold levelLimit at hlength
    unfold parameterLimit
    omega

end Clause

/-! ## Statements -/

structure Select.Fits (s : Select) : Prop where
  text : Fit s.demands
  columns : s.columns.length ≤ columnLimit
  order : s.order.length ≤ columnLimit

structure Exists.Fits (s : Exists) : Prop where
  text : Fit s.demands
  levels : ∀ clause, s.condition = some clause → s.levels + clause.levels ≤ levelLimit

structure Update.Fits (s : Update) : Prop where
  text : Fit s.demands
  cells : s.cells.length ≤ columnLimit

/-- Values ask for as many parameters. -/
theorem count_values {α : Type} (values : List α) :
    (values.map fun _ => Demand.parameter).count .parameter = values.length := by
  rw [List.map_const', List.count_replicate_self]

theorem granted_values {α : Type} (values : List α) :
    ∀ d ∈ values.map fun _ => Demand.parameter, d.Granted := by
  intro d hd
  obtain ⟨_, _, rfl⟩ := List.mem_map.mp hd
  trivial

theorem fit_insert_iff {s : Insert} : Fit s.demands ↔ s.cells.length ≤ parameterLimit :=
  ⟨fun h => count_values s.cells ▸ h.parameters,
    fun h => ⟨(count_values s.cells).symm ▸ h, granted_values s.cells⟩⟩

/-- The text of a statement is read exactly if its demands fit. -/
theorem readText_eq_ok {pieces : List Piece} {demands : List Demand} :
    readText pieces demands = .ok () ↔ Fit demands := by
  simp only [readText, bind_eq_ok, foldlM_grant_eq_ok (Nat.zero_le _), Nat.zero_add]
  constructor
  · rintro ⟨_, ⟨rfl, hparameters, hgranted⟩, _⟩
    exact ⟨hparameters, hgranted⟩
  · exact fun h => ⟨_, ⟨rfl, h.parameters, h.granted⟩, rfl⟩

theorem limited_readText (pieces : List Piece) (demands : List Demand) :
    Limited (readText pieces demands) := by
  intro cause h
  rcases bind_eq_error.mp h with hread | ⟨_, _, hnone⟩
  · obtain ⟨_, _, _, hgrant⟩ := foldlM_error hread
    exact limited_grant _ _ _ _ hgrant
  · cases hnone

/-- Two statements that fit together are read together. -/
theorem readText_together {pieces pieces' : List Piece} {demands demands' : List Demand}
    (h : Fit demands ↔ Fit demands') :
    Together (· = ·) (readText pieces demands) (readText pieces' demands') :=
  together_check (readText_eq_ok.trans (h.trans readText_eq_ok.symm))

theorem checkSize_eq_ok {what : String} {n : Nat} : checkSize what n = .ok () ↔ n ≤ columnLimit := by
  unfold checkSize
  split
  next hmore => exact ⟨nofun, fun h => absurd h (Nat.not_le_of_lt hmore)⟩
  next hroom => exact ⟨fun _ => Nat.le_of_not_lt hroom, fun _ => rfl⟩

theorem limited_checkSize (what : String) (n : Nat) : Limited (checkSize what n) := by
  intro cause h
  unfold checkSize at h
  split at h
  · cases h
    rfl
  · cases h

theorem Exists.checkLevels_eq_ok {s : Exists} : s.checkLevels = .ok () ↔
    ∀ clause, s.condition = some clause → s.levels + clause.levels ≤ levelLimit := by
  unfold Exists.checkLevels
  split
  next hnone => exact ⟨fun _ clause hclause => (nomatch hnone.symm.trans hclause), fun _ => rfl⟩
  next found hfound =>
    split
    next hmore => exact ⟨nofun, fun h => absurd (h found hfound) (Nat.not_le_of_lt hmore)⟩
    next hroom =>
      refine ⟨fun _ clause hclause => ?_, fun _ => rfl⟩
      cases hfound.symm.trans hclause
      exact Nat.le_of_not_lt hroom

theorem Exists.limited_checkLevels (s : Exists) : Limited s.checkLevels := by
  intro cause h
  unfold Exists.checkLevels at h
  split at h
  · cases h
  · split at h
    · cases h
      rfl
    · cases h

/-- A statement with a check of a limit is refused for asking too much if the check fails, and if it
is refused so where the check succeeds. -/
theorem exceeds_of_check {α : Type} {check : Except DatabaseFault Unit}
    {rest : Except DatabaseFault α}
    (hcheck : Limited check)
    (hrest : check = .ok () → ∃ cause, cause.isLimit = true ∧ rest = .error cause) :
    ∃ cause, cause.isLimit = true ∧ (do check; rest) = .error cause := by
  cases h : check with
  | error cause => exact ⟨cause, hcheck cause h, rfl⟩
  | ok => exact hrest h

end RecordStore
