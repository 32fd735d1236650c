import RecordStore.Proofs.Query.Layout

/-!
# Filters that restrict nothing

Whether a filter restricts anything is settled twice: on the tree, before anything is compiled, and by
the compiler, which gives no clause where nothing is left of the tree. The two agree for every nesting.
So a statement has a condition exactly if its filter restricts something, something stands behind
every `WHERE`, and a statement without one is the statement for all records.
-/

namespace RecordStore

open Piece

/-! ## The tree and the compiler -/

namespace Filter

theorem allUnrestricted_eq_all (parts : List Filter) :
    allUnrestricted parts = parts.all isUnrestricted := by
  induction parts with
  | nil => rfl
  | cons part rest ih => rw [allUnrestricted, ih, List.all_cons]

theorem anyUnrestricted_eq_any (parts : List Filter) :
    anyUnrestricted parts = parts.any isUnrestricted := by
  induction parts with
  | nil => rfl
  | cons part rest ih => rw [anyUnrestricted, ih, List.any_cons]

end Filter

/-- Several conditions are joined to one exactly if there are any. -/
theorem Clause.isNone_joined (join : List Clause → Clause) (parts : List Clause) :
    (joined join parts).isNone = parts.isEmpty := by
  match parts with
  | [] => rfl
  | [_] => rfl
  | _ :: _ :: _ => rfl

theorem isEmpty_filterMap_id {α : Type} (parts : List (Option α)) :
    (parts.filterMap id).isEmpty = parts.all Option.isNone := by
  induction parts with
  | nil => rfl
  | cons part rest ih =>
    cases part with
    | none => exact ih
    | some a => rfl

namespace Model

variable {m : Model}

mutual

/-- The compiler gives no clause exactly for the filters that restrict nothing. The induction goes
along the tree. -/
theorem isNone_of_compile : ∀ {f : Filter} {condition : Option Clause},
    m.compile f = .ok condition → condition.isNone = f.isUnrestricted
  | .all parts, condition, h => by
    simp only [compile, bind_eq_ok, Except.ok.injEq] at h
    obtain ⟨clauses, hc, rfl⟩ := h
    have hparts := congrArg (List.all · id) (map_isNone_of_compileParts hc)
    simp only [List.all_map, Function.id_comp] at hparts
    rw [Clause.isNone_joined, isEmpty_filterMap_id, hparts, Filter.isUnrestricted,
      Filter.allUnrestricted_eq_all]
  | .any parts, condition, h => by
    simp only [compile, bind_eq_ok, Except.ok.injEq] at h
    obtain ⟨clauses, hc, rfl⟩ := h
    have hparts := map_isNone_of_compileParts hc
    have hany := congrArg (List.any · id) hparts
    have hempty := congrArg List.isEmpty hparts
    simp only [List.any_map, Function.id_comp] at hany
    rw [List.isEmpty_map, List.isEmpty_map] at hempty
    rw [Filter.isUnrestricted, Filter.anyUnrestricted_eq_any, ← hany, ← hempty]
    split
    next hnone => rw [hnone, Bool.or_true, Option.isNone_none]
    next hnone =>
      -- Where every part has a clause, none is left only if there were no parts.
      rw [Bool.not_eq_true] at hnone
      rw [Clause.isNone_joined, isEmpty_filterMap_id, hnone, Bool.or_false]
      cases clauses with
      | nil => rfl
      | cons clause rest =>
        rw [List.any_cons, Bool.or_eq_false_iff] at hnone
        rw [List.all_cons, hnone.1, Bool.false_and, List.isEmpty_cons]
  | .condition c, condition, h => by
    simp only [compile, bind_eq_ok, map_eq_ok] at h
    obtain ⟨_, _, _, _, rfl⟩ := h
    rfl

theorem map_isNone_of_compileParts : ∀ {parts : List Filter} {clauses : List (Option Clause)},
    m.compileParts parts = .ok clauses →
      clauses.map Option.isNone = parts.map Filter.isUnrestricted
  | [], clauses, h => by
    simp only [compileParts, Except.ok.injEq] at h
    rw [← h]
    rfl
  | part :: rest, clauses, h => by
    simp only [compileParts, bind_eq_ok, Except.ok.injEq] at h
    obtain ⟨clause, hc, clauses, hcs, rfl⟩ := h
    rw [List.map_cons, List.map_cons, isNone_of_compile hc, map_isNone_of_compileParts hcs]

end

variable {f : Filter} {condition : Option Clause}

theorem eq_none_iff_of_compile (h : m.compile f = .ok condition) :
    condition = none ↔ f.isUnrestricted = true := by
  rw [← isNone_of_compile h, Option.isNone_iff_eq_none]

/-- Where a filter is compiled, looking at the tree first makes no difference. -/
theorem restriction_of_compile (h : m.compile f = .ok condition) :
    m.restriction (some f) = .ok condition := by
  simp only [restriction]
  split
  next hf => rw [(eq_none_iff_of_compile h).mpr hf]
  next => exact h

end Model

/-! ## Conditions in statements -/

/-- The word that a condition stands behind. -/
def whereWord : Piece := .ofString " WHERE "

theorem whereWord_not_mem_commas {α : Type} {pieces : α → List Piece} {parts : List α}
    (h : ∀ a ∈ parts, whereWord ∉ pieces a) : whereWord ∉ commas (parts.map pieces) := by
  intro hmem
  rcases mem_joinWith hmem with hcomma | ⟨part, hpart, hmem⟩
  · exact absurd hcomma (by decide)
  · obtain ⟨a, ha, rfl⟩ := List.mem_map.mp hpart
    exact h a ha hmem

theorem whereWord_not_mem_operandPieces (operands : List SqlValue) :
    whereWord ∉ Clause.operandPieces operands := by
  have hvalues : whereWord ∉ commas (operands.map fun value => [.param value]) :=
    whereWord_not_mem_commas fun _ _ => by simp [whereWord, ofString]
  simp only [Clause.operandPieces, List.mem_cons, List.mem_append, hvalues, List.not_mem_nil]
  decide

theorem OrderTerm.whereWord_not_mem (t : OrderTerm) : whereWord ∉ t.pieces := by
  obtain ⟨column, path, descending⟩ := t
  have hdirection : whereWord ≠ .ofString (if descending then " DESC" else " ASC") := by
    cases descending <;> decide
  cases path with
  | nil =>
    simp only [pieces, List.mem_cons, List.not_mem_nil, hdirection, or_false]
    simp [whereWord, ofString]
  | cons first rest =>
    simp only [pieces, List.mem_cons, List.not_mem_nil, hdirection, or_false]
    simp [whereWord, ofString]

/-- A condition is never written as nothing. -/
theorem Clause.text_pieces_ne (clause : Clause) : text clause.pieces ≠ "" := by
  have hchars : clause.pieces.flatMap chars ≠ [] := by
    cases clause with
    | constant b => cases b <;> decide
    | compare | isNull | isNotNull | oneOf | noneOf => simp [pieces, Piece.chars, quotedName, quoted]
    | all parts | any parts => simp [pieces, Piece.chars, ofString]
  intro h
  exact hchars (by simpa [text] using congrArg String.toList h)

namespace Request

variable {m : Model} {r : Request}

theorem whereWord_not_mem_front (m : Model) (r : Request) : whereWord ∉ r.front m := by
  have hnames : ∀ names : List String, whereWord ∉ commas (names.map fun name => [.name name]) :=
    fun names => whereWord_not_mem_commas fun _ _ => by simp [whereWord, ofString]
  cases r with
  | select filter keys window =>
    simp only [front, Select.front, List.mem_append, List.mem_cons, hnames, List.not_mem_nil]
    simp [whereWord, ofString]
  | count filter => simp [front, Count.front, whereWord, ofString]
  | «exists» filter => simp [front, Exists.front, whereWord, ofString]
  | insert cells =>
    have hcells : whereWord ∉ commas (cells.map fun cell => [.name cell.1]) :=
      whereWord_not_mem_commas fun _ _ => by simp [whereWord, ofString]
    have hvalues := whereWord_not_mem_operandPieces (cells.map Prod.snd)
    by_cases hnil : cells = []
    · rw [hnil]
      simp [front, Model.insert, Insert.pieces, whereWord, ofString]
    · simp only [front, Model.insert, Insert.pieces_of_ne_nil _ hnil, List.mem_append, List.mem_cons,
        hcells, hvalues, List.not_mem_nil]
      simp [whereWord, ofString]
  | update cells filter =>
    have hcells : whereWord ∉
        commas (cells.map fun cell => [.name cell.1, .ofString " = ", .param cell.2]) :=
      whereWord_not_mem_commas fun _ _ => by simp [whereWord, ofString]
    simp only [front, Update.front, List.mem_append, List.mem_cons, hcells, List.not_mem_nil]
    simp [whereWord, ofString]
  | delete filter => simp [front, Delete.front, whereWord, ofString]

theorem whereWord_not_mem_back {tail : List Piece} (h : r.back m = .ok tail) :
    whereWord ∉ tail := by
  cases r with
  | select filter keys window =>
    simp only [back, bind_eq_ok, Except.ok.injEq] at h
    obtain ⟨order, _, rfl⟩ := h
    have horder : whereWord ∉ orderLine order := by
      cases order with
      | nil => exact List.not_mem_nil
      | cons first rest =>
        have hterms : whereWord ∉ commas ((first :: rest).map OrderTerm.pieces) :=
          whereWord_not_mem_commas fun term _ => term.whereWord_not_mem
        rw [orderLine, List.mem_cons, not_or]
        · exact ⟨by decide, hterms⟩
        · exact List.cons_ne_nil _ _
    rw [List.mem_append, not_or]
    refine ⟨horder, ?_⟩
    cases window <;> simp [windowLine, whereWord, ofString]
  | «exists» filter =>
    cases h
    decide
  | update cells filter =>
    simp only [back] at h
    split at h
    · cases h
    · cases h
      exact List.not_mem_nil
  | count filter | insert cells | delete filter =>
    cases h
    exact List.not_mem_nil

end Request

namespace Model

/-- A filter that is compiled has no clause exactly if it restricts nothing, and then it holds of every
row and brings no parameter along. The statement of every request with such a filter is that of the
request for all records; with any other filter the two differ by a condition behind `WHERE`. And
where the text can be read, the condition read from it is the clause, and without a clause there is
no `WHERE` in it. -/
theorem where_iff_restricts {m : Model} {f : Filter} {condition : Option Clause}
    (h : m.compile f = .ok condition) :
    (condition = none ↔ f.isUnrestricted = true) ∧
    (f.isUnrestricted = true →
      params (whereLine condition) = [] ∧ ∀ row, f.meaning m row = true) ∧
    ∀ r : Request, r.filter = some f →
      (f.isUnrestricted = true → m.write r = m.write r.unfiltered) ∧
      (f.isUnrestricted = false → ∃ (clause : Clause) (front : List Piece)
        (back : Except StoreError (List Piece)), condition = some clause ∧
          text clause.pieces ≠ "" ∧ m.write r.unfiltered = back.map (fun tail => front ++ tail) ∧
          m.write r = back.map fun tail => front ++ whereWord :: clause.pieces ++ tail) ∧
      ∀ pieces, m.write r = .ok pieces →
        (whereWord ∈ pieces ↔ f.isUnrestricted = false) ∧
        (m.validate = .ok () → r.Checked m →
          ∃ ts, tokensOf (text pieces) (params pieces) = some ts ∧
            (.keyword .WHERE ∈ ts ↔ f.isUnrestricted = false) ∧
            Clause.ofTokens ts = some condition) := by
  have hnone := eq_none_iff_of_compile h
  have hsome : condition ≠ none ↔ f.isUnrestricted = false := by
    rw [← Bool.not_eq_true, ← hnone]
  refine ⟨hnone, fun hf => ⟨?_, fun row => Filter.meaning_of_isUnrestricted hf⟩, fun r hr => ?_⟩
  · rw [hnone.mpr hf]
    rfl
  have hrestriction : m.restriction r.filter = .ok condition := hr ▸ restriction_of_compile h
  have hwrite := write_of_restriction hrestriction
  refine ⟨fun hf => ?_, fun hf => ?_, fun pieces hpieces => ⟨?_, fun hm hchecked => ?_⟩⟩
  · rw [hwrite, write_unfiltered, hnone.mpr hf]
    simp only [whereLine, List.append_nil]
  · obtain ⟨clause, rfl⟩ := Option.ne_none_iff_exists'.mp (hsome.mpr hf)
    exact ⟨clause, r.front m, r.back m, rfl, clause.text_pieces_ne, write_unfiltered m r, hwrite⟩
  · obtain ⟨tail, htail, rfl⟩ := map_eq_ok.mp (hwrite ▸ hpieces)
    rw [← hsome, List.mem_append, List.mem_append]
    simp only [r.whereWord_not_mem_front m, Request.whereWord_not_mem_back htail, false_or, or_false]
    cases condition <;> simp [whereLine, whereWord]
  · obtain ⟨other, ts, hother, _, hread, hcondition, hwhere⟩ := exists_tokens hm hchecked hpieces
    obtain rfl : condition = other := Except.ok.inj (hrestriction.symm.trans hother)
    exact ⟨ts, hread, hwhere.trans hsome, hcondition⟩

/-- A disjunction beside a part that restricts nothing leaves no condition behind, though it holds a
comparison; next to it in a conjunction, the comparison is what the condition consists of. -/
theorem where_of_persons :
    personModel.write (.delete (some (.any [.condition ⟨"name", .equal, .string "Bob"⟩, .all [.any []]]))) =
        personModel.write (.delete none) ∧
      ∃ pieces, personModel.write (.delete (some (.all
          [.any [.condition ⟨"age", .less, .ofInt64 3⟩, .all []],
            .condition ⟨"name", .equal, .string "Bob"⟩]))) = .ok pieces ∧
        whereWord ∈ pieces ∧
        text pieces = "DELETE FROM \"person\" WHERE \"name\" = ?" := by
  obtain ⟨_, _, hdropped⟩ := where_iff_restricts
    (rfl : personModel.compile (.any [.condition ⟨"name", .equal, .string "Bob"⟩, .all [.any []]]) =
      .ok none)
  obtain ⟨_, _, hkept⟩ := where_iff_restricts
    (rfl : personModel.compile (.all [.any [.condition ⟨"age", .less, .ofInt64 3⟩, .all []],
      .condition ⟨"name", .equal, .string "Bob"⟩]) = .ok (some _))
  refine ⟨(hdropped (.delete _) rfl).1 rfl, _, rfl, ?_, by decide +kernel⟩
  exact (((hkept (.delete _) rfl).2.2 _ rfl).1).mpr rfl

end Model

end RecordStore
