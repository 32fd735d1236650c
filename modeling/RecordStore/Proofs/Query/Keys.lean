import RecordStore.Proofs.Query.Meaning

/-!
# Which filters are refused

A filter that was accepted is refused by a model if one of its conditions cannot be compiled: its
column is unknown, or it orders a column against `null`. What is looked at are the conditions, not
the keys. A key with an empty object of operators has no condition, and a filter that restricts
nothing is not compiled at all, so that neither is refused for an unknown column.
-/

namespace RecordStore

/-- Whether a comparison is one of order. -/
def Comparison.isOrdering : Comparison → Bool
  | .greater | .atLeast | .less | .atMost => true
  | _ => false

/-- An identifier is no operator of a filter. -/
theorem Comparison.ofOperator?_identifier {name : String} (h : isIdentifier name = true) :
    ofOperator? name = none := by
  rw [ofOperator?, List.find?_eq_none]
  intro c _ hoperator
  have heq : c.operator = name := of_decide_eq_true hoperator
  rw [← heq] at h
  cases c <;> exact absurd h (by decide)

namespace Condition

/-- A membership condition has a list. -/
def Accepted (c : Condition) : Prop :=
  c.comparison.expectsList = true → ∃ items, c.value = .array items

/-- Whether a condition orders its column against `null`. -/
def ordersNull (c : Condition) : Bool := c.comparison.isOrdering && c.value.isNull

theorem clauseOn_isOk_iff {c : Condition} (hc : c.Accepted) (column : Column) :
    (∃ clause, c.clauseOn column = .ok clause) ↔ c.ordersNull = false := by
  obtain ⟨name, comparison, value⟩ := c
  cases comparison with
  | equal | notEqual => simp [clauseOn, ordersNull, Comparison.isOrdering]
  | greater | atLeast | less | atMost =>
    simp only [clauseOn, relate, ordersNull, Comparison.isOrdering, Bool.true_and]
    cases value.isNull <;> simp
  | oneOf | noneOf =>
    obtain ⟨items, rfl⟩ := hc rfl
    simp [clauseOn, ordersNull, Comparison.isOrdering]

/-- A condition that a model can compile. -/
def Compiles (m : Model) (c : Condition) : Prop :=
  (m.column? c.column).isSome = true ∧ c.ordersNull = false

theorem compiles_iff {m : Model} {c : Condition} (hc : c.Accepted) :
    (∃ column, m.resolve c.column = .ok column ∧ ∃ clause, c.clauseOn column = .ok clause) ↔
      c.Compiles m := by
  simp only [clauseOn_isOk_iff hc, Compiles, Option.isSome_iff_exists, resolve_eq_ok]
  exact ⟨fun ⟨column, hcolumn, hnull⟩ => ⟨⟨column, hcolumn⟩, hnull⟩,
    fun ⟨⟨column, hcolumn⟩, hnull⟩ => ⟨column, hcolumn, hnull⟩⟩

end Condition

namespace Filter

mutual

/-- The conditions of a filter at any depth. -/
def conditions : Filter → List Condition
  | .all parts => partConditions parts
  | .any parts => partConditions parts
  | .condition c => [c]

/-- The conditions of several filters. -/
def partConditions : List Filter → List Condition
  | [] => []
  | part :: rest => conditions part ++ partConditions rest

end

theorem partConditions_append (as bs : List Filter) :
    partConditions (as ++ bs) = partConditions as ++ partConditions bs := by
  induction as with
  | nil => rfl
  | cons a rest ih => rw [List.cons_append, partConditions, ih, partConditions, List.append_assoc]

theorem partConditions_map_condition (cs : List Condition) :
    partConditions (cs.map .condition) = cs := by
  induction cs with
  | nil => rfl
  | cons c rest ih => rw [List.map_cons, partConditions, ih]; rfl

/-- The conditions that a search for the members of a record has. -/
theorem conditions_matching (record : Record) : (Filter.matching record).conditions =
    record.map fun (column, value) => ⟨column, .equal, value⟩ := by
  rw [Filter.matching, Filter.conditions, ← partConditions_map_condition (record.map _), List.map_map]
  rfl

end Filter

mutual

/-- A model compiles a filter if it compiles all of its conditions, also those of parts that are
dropped from a disjunction afterwards. -/
theorem compile_isOk_iff {m : Model} : ∀ {f : Filter}, (∀ c ∈ f.conditions, c.Accepted) →
    ((∃ clause, m.compile f = .ok clause) ↔ ∀ c ∈ f.conditions, c.Compiles m)
  | .all parts, hf => by
    rw [Filter.conditions, ← compileParts_isOk_iff hf, Model.compile]
    exact exists_bind_eq_ok fun _ => ⟨_, rfl⟩
  | .any parts, hf => by
    rw [Filter.conditions, ← compileParts_isOk_iff hf, Model.compile]
    exact exists_bind_eq_ok fun _ => ⟨_, rfl⟩
  | .condition c, hf => by
    have hc := Condition.compiles_iff (m := m) (hf c (by simp [Filter.conditions]))
    simp only [Filter.conditions, List.mem_singleton, forall_eq, ← hc, Model.compile, bind_eq_ok,
      map_eq_ok]
    exact ⟨fun ⟨_, column, hcolumn, clause, hclause, _⟩ => ⟨column, hcolumn, clause, hclause⟩,
      fun ⟨column, hcolumn, clause, hclause⟩ => ⟨_, column, hcolumn, clause, hclause, rfl⟩⟩

theorem compileParts_isOk_iff {m : Model} : ∀ {parts : List Filter},
    (∀ c ∈ Filter.partConditions parts, c.Accepted) →
    ((∃ clauses, m.compileParts parts = .ok clauses) ↔
      ∀ c ∈ Filter.partConditions parts, c.Compiles m)
  | [], _ => by simp [Model.compileParts, Filter.partConditions]
  | part :: rest, hf => by
    simp only [Filter.partConditions, List.forall_mem_append] at hf ⊢
    rw [← compile_isOk_iff hf.1, ← compileParts_isOk_iff hf.2]
    simp only [Model.compileParts, bind_eq_ok, Except.ok.injEq]
    exact ⟨fun ⟨_, clause, hc, clauses, hcs, _⟩ => ⟨⟨clause, hc⟩, clauses, hcs⟩,
      fun ⟨⟨clause, hc⟩, clauses, hcs⟩ => ⟨_, clause, hc, clauses, hcs, rfl⟩⟩

end

theorem compile_refused_iff {m : Model} {f : Filter} (hf : ∀ c ∈ f.conditions, c.Accepted) :
    (∃ e, m.compile f = .error e) ↔ ∃ c ∈ f.conditions, ¬ c.Compiles m := by
  rw [exists_error_iff, compile_isOk_iff hf]
  simp only [not_forall, exists_prop]

/-! ## Keys -/

namespace Filter

mutual

/-- The column keys of a filter at any depth, with their values. -/
def keys : Json → List (String × Json)
  | .object members => memberKeys members
  | _ => []

/-- The column keys among the members of an object and below them. -/
def memberKeys : List (String × Json) → List (String × Json)
  | [] => []
  | (key, value) :: rest =>
    (if key = "$and" ∨ key = "$or" then
      match value with
      | .array items => itemKeys items
      | _ => []
    else [(key, value)]) ++ memberKeys rest

/-- The column keys of several filters. -/
def itemKeys : List Json → List (String × Json)
  | [] => []
  | item :: rest => keys item ++ itemKeys rest

end

/-- The conditions of a column key with its value. -/
def conditionsOfKey (member : String × Json) : Except QueryError (List Condition) :=
  ofMember member.1 member.2

/-- What the first member of an accepted object stands for. -/
theorem ofMembers_cons {key : String} {value : Json} {rest : List (String × Json)}
    {parts : List Filter} (h : ofMembers ((key, value) :: rest) = .ok parts) :
    ∃ here more, ofMembers rest = .ok more ∧ parts = here ++ more ∧
      if key = "$and" ∨ key = "$or" then
        ∃ items found, value = .array items ∧ ofItems items = .ok found ∧
          here = [if key = "$and" then .all found else .any found]
      else ∃ cs, ofMember key value = .ok cs ∧ here = cs.map .condition := by
  unfold ofMembers at h
  by_cases hkey : key = "$and" ∨ key = "$or"
  · rw [if_pos hkey] at h
    cases value with
    | array items =>
      simp only [bind_eq_ok] at h
      obtain ⟨found, hitems, here, hhere, more, hmore, heq⟩ := h
      cases hhere
      cases heq
      exact ⟨_, more, hmore, rfl, by rw [if_pos hkey]; exact ⟨items, found, rfl, hitems, rfl⟩⟩
    | null | bool _ | number _ | string _ | object _ =>
      obtain ⟨_, hhere, _⟩ := bind_eq_ok.mp h
      cases hhere
  · rw [if_neg hkey] at h
    simp only [bind_eq_ok] at h
    obtain ⟨here, hhere, more, hmore, heq⟩ := h
    obtain ⟨cs, hcs, rfl⟩ := map_eq_ok.mp hhere
    cases heq
    exact ⟨_, more, hmore, rfl, by rw [if_neg hkey]; exact ⟨cs, hcs, rfl⟩⟩

mutual

/-- The conditions of an accepted filter are those of its column keys. -/
theorem conditions_ofJson : ∀ {value : Json} {f : Filter}, ofJson value = .ok f →
    ∃ css, (keys value).mapM conditionsOfKey = .ok css ∧ f.conditions = css.flatten
  | .object members, f, h => by
    rw [ofJson] at h
    obtain ⟨parts, hparts, rfl⟩ := map_eq_ok.mp h
    exact partConditions_ofMembers hparts
  | .null, _, h | .bool _, _, h | .number _, _, h | .string _, _, h | .array _, _, h => by
    simp [ofJson] at h

theorem partConditions_ofMembers : ∀ {members : List (String × Json)} {parts : List Filter},
    ofMembers members = .ok parts →
    ∃ css, (memberKeys members).mapM conditionsOfKey = .ok css ∧ partConditions parts = css.flatten
  | [], parts, h => by
    rw [ofMembers, Except.ok.injEq] at h
    exact ⟨[], rfl, h ▸ rfl⟩
  | (key, value) :: rest, parts, h => by
    obtain ⟨here, more, hmore, rfl, hhere⟩ := ofMembers_cons h
    obtain ⟨css, hcss, hflat⟩ := partConditions_ofMembers hmore
    unfold memberKeys
    split at hhere
    next hkey =>
      obtain ⟨items, found, rfl, hitems, rfl⟩ := hhere
      obtain ⟨css', hcss', hflat'⟩ := partConditions_ofItems hitems
      rw [if_pos hkey]
      refine ⟨css' ++ css, mapM_append hcss' hcss, ?_⟩
      have hfound : partConditions [if key = "$and" then all found else any found] =
          partConditions found := by
        split <;> simp [partConditions, conditions]
      rw [partConditions_append, hfound, hflat', hflat, List.flatten_append]
    next hkey =>
      obtain ⟨cs, hcs, rfl⟩ := hhere
      rw [if_neg hkey]
      have hone : [(key, value)].mapM conditionsOfKey = .ok [cs] := by
        simp only [List.mapM_cons, List.mapM_nil, conditionsOfKey, hcs, ok_bind]
        rfl
      refine ⟨[cs] ++ css, mapM_append hone hcss, ?_⟩
      rw [partConditions_append, partConditions_map_condition, hflat]
      rfl

theorem partConditions_ofItems : ∀ {items : List Json} {parts : List Filter},
    ofItems items = .ok parts →
    ∃ css, (itemKeys items).mapM conditionsOfKey = .ok css ∧ partConditions parts = css.flatten
  | [], parts, h => by
    rw [ofItems, Except.ok.injEq] at h
    exact ⟨[], rfl, h ▸ rfl⟩
  | item :: rest, parts, h => by
    simp only [ofItems, bind_eq_ok, Except.ok.injEq] at h
    obtain ⟨part, hpart, more, hmore, rfl⟩ := h
    obtain ⟨css, hcss, hflat⟩ := conditions_ofJson hpart
    obtain ⟨css', hcss', hflat'⟩ := partConditions_ofItems hmore
    refine ⟨css ++ css', mapM_append hcss hcss', ?_⟩
    rw [partConditions, hflat, hflat', List.flatten_append]

end

/-! ## The conditions of a key -/

/-- Whether the value of a column key orders the column against `null`. -/
def ordersNull : Json → Bool
  | .object operators => operators.any fun (key, value) =>
    value.isNull && (Comparison.ofOperator? key).any Comparison.isOrdering
  | _ => false

/-- The filter `f` that `value` stands for is refused by a model: the filter restricts something, and
some key at any depth has a condition on an unknown column or an order against `null`. -/
def RefusedBy (m : Model) (value : Json) (f : Filter) : Prop :=
  f.isUnrestricted = false ∧ ∃ key inner, (key, inner) ∈ keys value ∧
    (m.column? key = none ∧ inner ≠ .object [] ∨ ordersNull inner = true)

theorem ofOperator_eq_ok {column key : String} {value : Json} {c : Condition}
    (h : ofOperator column key value = .ok c) : ∃ comparison,
      Comparison.ofOperator? key = some comparison ∧ c = ⟨column, comparison, value⟩ ∧
        c.Accepted := by
  unfold ofOperator at h
  split at h
  · cases h
  next comparison items hkey =>
    cases h
    exact ⟨comparison, hkey, rfl, fun _ => ⟨items, rfl⟩⟩
  next comparison hkey _ =>
    split at h
    · cases h
    next hlist =>
      cases h
      exact ⟨comparison, hkey, rfl, fun hexpects => absurd hexpects hlist⟩

/-- A shorthand compares with a number or a text, and with no list. -/
theorem ofShorthand_spec (column text : String) : (ofShorthand column text).column = column ∧
    (ofShorthand column text).Accepted ∧ (ofShorthand column text).ordersNull = false := by
  unfold ofShorthand
  simp only
  split
  next comparison n hnumber =>
    obtain ⟨⟨mark, found⟩, hmark, hn⟩ := Option.bind_eq_some_iff.mp hnumber
    obtain ⟨_, _, heq⟩ := Option.map_eq_some_iff.mp hn
    cases heq
    have hmem := List.mem_of_find?_eq_some hmark
    refine ⟨rfl, fun hlist => ?_, by simp [Condition.ordersNull, Json.isNull]⟩
    simp only [marks, List.mem_cons, Prod.mk.injEq, List.not_mem_nil, or_false] at hmem
    rcases hmem with h | h | h | h | h | h <;> simp [h.2, Comparison.expectsList] at hlist
  · exact ⟨rfl, fun hlist => absurd hlist Bool.false_ne_true, rfl⟩

/-- What the conditions of a column key have in common, and where there are none. -/
theorem ofColumn_spec {column : String} {value : Json} {cs : List Condition}
    (h : ofColumn column value = .ok cs) : (∀ c ∈ cs, c.column = column ∧ c.Accepted) ∧
      (cs = [] ↔ value = .object []) ∧
      ((∃ c ∈ cs, c.ordersNull = true) ↔ ordersNull value = true) := by
  cases value with
  | object operators =>
    rw [ofColumn] at h
    refine ⟨fun c hc => ?_, ?_, ?_⟩
    · obtain ⟨_, _, hop⟩ := mem_of_mapM h hc
      obtain ⟨_, _, rfl, haccepted⟩ := ofOperator_eq_ok hop
      exact ⟨rfl, haccepted⟩
    · rw [List.eq_nil_iff_length_eq_zero, mapM_length h, ← List.eq_nil_iff_length_eq_zero,
        Json.object.injEq]
    · simp only [ordersNull, List.any_eq_true, Bool.and_eq_true]
      constructor
      · rintro ⟨c, hc, hnull⟩
        obtain ⟨⟨key, value⟩, hmem, hop⟩ := mem_of_mapM h hc
        obtain ⟨comparison, hkey, rfl, _⟩ := ofOperator_eq_ok hop
        simp only [Condition.ordersNull, Bool.and_eq_true] at hnull
        exact ⟨(key, value), hmem, hnull.2, by simp [hkey, hnull.1]⟩
      · rintro ⟨⟨key, value⟩, hmem, hvalue, hordering⟩
        obtain ⟨c, hc, hop⟩ := exists_of_mapM h hmem
        obtain ⟨comparison, hkey, rfl, _⟩ := ofOperator_eq_ok hop
        refine ⟨_, hc, ?_⟩
        simpa [Condition.ordersNull, hkey, hvalue] using hordering
  | string text =>
    cases h
    obtain ⟨hcolumn, haccepted, hnull⟩ := ofShorthand_spec column text
    simp [hcolumn, haccepted, hnull, ordersNull]
  | array items => cases h
  | null | bool _ | number _ =>
    cases h
    simp [Condition.Accepted, Comparison.expectsList, Condition.ordersNull, Comparison.isOrdering,
      ordersNull]

theorem ofColumn_of_conditionsOfKey {key : String} {value : Json} {cs : List Condition}
    (h : conditionsOfKey (key, value) = .ok cs) : ofColumn key value = .ok cs := by
  simp only [conditionsOfKey, ofMember] at h
  split at h
  · cases h
  · cases h
  · split at h
    · exact h
    · cases h

section
variable {value : Json} {f : Filter} (h : ofJson value = .ok f)
include h

theorem ofColumn_of_mem_keys {key : String} {inner : Json} (hmem : (key, inner) ∈ keys value) :
    ∃ cs, ofColumn key inner = .ok cs ∧ ∀ c ∈ cs, c ∈ f.conditions := by
  obtain ⟨css, hcss, hflat⟩ := conditions_ofJson h
  obtain ⟨cs, hcs, hkey⟩ := exists_of_mapM hcss hmem
  refine ⟨cs, ofColumn_of_conditionsOfKey hkey, fun c hc => ?_⟩
  rw [hflat]
  exact List.mem_flatten.mpr ⟨cs, hcs, hc⟩

theorem keys_of_mem_conditions {c : Condition} (hc : c ∈ f.conditions) :
    ∃ inner cs, (c.column, inner) ∈ keys value ∧ ofColumn c.column inner = .ok cs ∧ c ∈ cs := by
  obtain ⟨css, hcss, hflat⟩ := conditions_ofJson h
  obtain ⟨cs, hcs, hc⟩ := List.mem_flatten.mp (hflat ▸ hc)
  obtain ⟨⟨key, inner⟩, hmem, hkey⟩ := mem_of_mapM hcss hcs
  have hcolumn := ofColumn_of_conditionsOfKey hkey
  obtain rfl := ((ofColumn_spec hcolumn).1 c hc).1
  exact ⟨inner, cs, hmem, hcolumn, hc⟩

theorem ofJson_accepted : ∀ c ∈ f.conditions, c.Accepted := by
  intro c hc
  obtain ⟨inner, cs, _, hcolumn, hc⟩ := keys_of_mem_conditions h hc
  exact ((ofColumn_spec hcolumn).1 c hc).2

/-- A condition of an accepted filter that a model cannot compile comes from a key that the model
refuses. -/
theorem exists_not_compiles_iff (m : Model) : (∃ c ∈ f.conditions, ¬ c.Compiles m) ↔
    ∃ key inner, (key, inner) ∈ keys value ∧
      (m.column? key = none ∧ inner ≠ .object [] ∨ ordersNull inner = true) := by
  constructor
  · rintro ⟨c, hc, hcompiles⟩
    obtain ⟨inner, cs, hmem, hcolumn, hc⟩ := keys_of_mem_conditions h hc
    obtain ⟨_, hempty, hnull⟩ := ofColumn_spec hcolumn
    refine ⟨c.column, inner, hmem, ?_⟩
    by_cases hknown : m.column? c.column = none
    · exact .inl ⟨hknown, fun h => List.ne_nil_of_mem hc (hempty.mpr h)⟩
    · refine .inr (hnull.mp ⟨c, hc, ?_⟩)
      simpa [Condition.Compiles, Option.isSome_iff_ne_none, hknown] using hcompiles
  · rintro ⟨key, inner, hmem, hcause⟩
    obtain ⟨cs, hcolumn, hcs⟩ := ofColumn_of_mem_keys h hmem
    obtain ⟨hcommon, hempty, hnull⟩ := ofColumn_spec hcolumn
    rcases hcause with ⟨hknown, hinner⟩ | horder
    · obtain ⟨c, hc⟩ := List.exists_mem_of_ne_nil cs fun h => hinner (hempty.mp h)
      refine ⟨c, hcs c hc, fun hcompiles => ?_⟩
      rw [Condition.Compiles, (hcommon c hc).1, hknown] at hcompiles
      exact Bool.false_ne_true hcompiles.1
    · obtain ⟨c, hc, hordered⟩ := hnull.mpr horder
      exact ⟨c, hcs c hc, fun hcompiles => Bool.noConfusion (hordered.symm.trans hcompiles.2)⟩

/-- A model refuses exactly the accepted filters that are refused by their keys. -/
theorem restriction_refused_iff (m : Model) :
    (∃ e, m.restriction (some f) = .error e) ↔ RefusedBy m value f := by
  rw [RefusedBy, ← exists_not_compiles_iff h, ← compile_refused_iff (ofJson_accepted h)]
  cases hf : f.isUnrestricted with
  | true => simp [Model.restriction, hf]
  | false => simp [Model.restriction, hf]

end

end Filter

end RecordStore
