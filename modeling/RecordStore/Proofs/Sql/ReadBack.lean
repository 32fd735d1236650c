import RecordStore.Proofs.Sql.Tokens

/-!
# Conditions read back

A condition that is written as pieces is read back as the same condition. It has to have been
written well: its lists of parameters are not empty, and it joins at least two parts. The
parentheses around joined parts are what makes the readings agree.
-/

namespace RecordStore

namespace Clause

/-- Conditions that can be read back: names have no zero characters, membership is in a list that
is not empty, and at least two parts are joined. -/
inductive Readable : Clause → Prop
  | compare {column : String} (hz : '\x00' ∉ column.toList) (relation : Relation)
      (operand : SqlValue) : Readable (.compare column relation operand)
  | isNull {column : String} (hz : '\x00' ∉ column.toList) : Readable (.isNull column)
  | isNotNull {column : String} (hz : '\x00' ∉ column.toList) : Readable (.isNotNull column)
  | oneOf {column : String} {operands : List SqlValue} (hz : '\x00' ∉ column.toList)
      (ho : operands ≠ []) : Readable (.oneOf column operands)
  | noneOf {column : String} {operands : List SqlValue} (hz : '\x00' ∉ column.toList)
      (ho : operands ≠ []) : Readable (.noneOf column operands)
  | constant (b : Bool) : Readable (.constant b)
  | all {parts : List Clause} (hlen : 2 ≤ parts.length) (h : ∀ part ∈ parts, Readable part) :
      Readable (.all parts)
  | any {parts : List Clause} (hlen : 2 ≤ parts.length) (h : ∀ part ∈ parts, Readable part) :
      Readable (.any parts)

/-- The tokens of parameters in parentheses. -/
def operandTokens (operands : List SqlValue) : List Token :=
  .sign ['('] :: (joinWith [.sign [',']] (operands.map fun v => [.value v]) ++ [.sign [')']])

mutual

/-- The tokens of a condition. -/
def tokens : Clause → List Token
  | .compare column relation operand =>
    [.name column, .sign relation.sign.toList, .value operand]
  | .isNull column => [.name column, .keyword .IS, .keyword .NULL]
  | .isNotNull column => [.name column, .keyword .IS, .keyword .NOT, .keyword .NULL]
  | .oneOf column operands => [.name column, .keyword .IN] ++ operandTokens operands
  | .noneOf column operands =>
    [.name column, .keyword .NOT, .keyword .IN] ++ operandTokens operands
  | .constant b => [.word [if b then '1' else '0'], .sign ['='], .word ['1']]
  | .all parts =>
    .sign ['('] :: (joinWith [.keyword .AND] (partTokens parts) ++ [.sign [')']])
  | .any parts =>
    .sign ['('] :: (joinWith [.keyword .OR] (partTokens parts) ++ [.sign [')']])

/-- The tokens of each of several conditions. -/
def partTokens : List Clause → List (List Token)
  | [] => []
  | part :: rest => tokens part :: partTokens rest

end

theorem partTokens_eq_map (parts : List Clause) : partTokens parts = parts.map tokens := by
  induction parts with
  | nil => rfl
  | cons part rest ih => rw [partTokens, ih, List.map_cons]

theorem partPieces_eq_map (parts : List Clause) : partPieces parts = parts.map pieces := by
  induction parts with
  | nil => rfl
  | cons part rest ih => rw [partPieces, ih, List.map_cons]

theorem tokens_ne_nil (clause : Clause) : clause.tokens ≠ [] := by
  cases clause <;> simp [tokens]

/-! ## From text to tokens -/

section
open Piece

theorem readThrough_operandPieces (operands : List SqlValue) :
    ReadThrough (operandPieces operands) (operandTokens operands) := by
  have hopen : ReadThrough [.ofString "("] [.sign ['(']] := fun _ _ => rfl
  have hclose : ReadThrough [.ofString ")"] [.sign [')']] := fun _ _ => rfl
  have hvalues : ReadAs (commas (operands.map fun value => [.param value]))
      (joinWith [.sign [',']] (operands.map fun value => [.value value])) :=
    readAs_commas fun value _ => (readThrough_param value).readAs
  exact hopen.append (hvalues.append_readThrough ⟨')', [], rfl, rfl⟩ hclose)

theorem readThrough_relation (relation : Relation) :
    ReadThrough [.ofString (" " ++ relation.sign ++ " ")] [.sign relation.sign.toList] := by
  cases relation <;> exact fun _ _ => rfl

/-- The text of a condition is read as its tokens. -/
theorem Readable.readAs {clause : Clause} (h : clause.Readable) :
    ReadAs clause.pieces clause.tokens := by
  have hopen : ReadThrough [.ofString "("] [.sign ['(']] := fun _ _ => rfl
  have hclose : ReadThrough [.ofString ")"] [.sign [')']] := fun _ _ => rfl
  induction h with
  | compare hz relation operand =>
    have hrest := (readThrough_relation relation).append (readThrough_param operand)
    have hblank : StartsApart [.ofString (" " ++ relation.sign ++ " "), .param operand] := by
      cases relation <;> exact ⟨' ', _, rfl, rfl⟩
    exact (readAs_name hz).append hblank hrest.readAs
  | isNull hz =>
    have hrest : ReadAs [.ofString " IS NULL"] [.keyword .IS, .keyword .NULL] := fun _ _ => rfl
    exact (readAs_name hz).append ⟨' ', _, rfl, rfl⟩ hrest
  | isNotNull hz =>
    have hrest : ReadAs [.ofString " IS NOT NULL"] [.keyword .IS, .keyword .NOT, .keyword .NULL] :=
      fun _ _ => rfl
    exact (readAs_name hz).append ⟨' ', _, rfl, rfl⟩ hrest
  | @oneOf _ operands hz _ =>
    have hrest : ReadThrough [.ofString " IN "] [.keyword .IN] := fun _ _ => rfl
    exact (readAs_name hz).append ⟨' ', _, rfl, rfl⟩
      (hrest.append (readThrough_operandPieces operands)).readAs
  | @noneOf _ operands hz _ =>
    have hrest : ReadThrough [.ofString " NOT IN "] [.keyword .NOT, .keyword .IN] :=
      fun _ _ => rfl
    exact (readAs_name hz).append ⟨' ', _, rfl, rfl⟩
      (hrest.append (readThrough_operandPieces operands)).readAs
  | constant b => cases b <;> exact fun _ _ => rfl
  | all _ _ ih =>
    have hand : ReadThrough [.ofString " AND "] [.keyword .AND] := fun _ _ => rfl
    have hparts := readAs_joinWith hand ⟨' ', _, rfl, rfl⟩ ih
    rw [pieces, tokens, partPieces_eq_map, partTokens_eq_map]
    exact (hopen.append (hparts.append_readThrough ⟨')', [], rfl, rfl⟩ hclose)).readAs
  | any _ _ ih =>
    have hor : ReadThrough [.ofString " OR "] [.keyword .OR] := fun _ _ => rfl
    have hparts := readAs_joinWith hor ⟨' ', _, rfl, rfl⟩ ih
    rw [pieces, tokens, partPieces_eq_map, partTokens_eq_map]
    exact (hopen.append (hparts.append_readThrough ⟨')', [], rfl, rfl⟩ hclose)).readAs

end

/-! ## From tokens to conditions -/

theorem relation?_sign (relation : Relation) : relation? relation.sign.toList = some relation := by
  cases relation <;> rfl

theorem readOperands_join {operands : List SqlValue} (h : operands ≠ []) (rest : List Token) :
    readOperands (joinWith [.sign [',']] (operands.map fun v => [.value v]) ++
      .sign [')'] :: rest) = some (operands, rest) := by
  induction operands with
  | nil => exact absurd rfl h
  | cons value more ih =>
    cases more with
    | nil => rfl
    | cons next more =>
      have hmore := ih (List.cons_ne_nil _ _)
      simp only [List.map_cons, joinWith, List.append_assoc] at hmore ⊢
      simp only [List.cons_append, List.nil_append, readOperands] at hmore ⊢
      rw [hmore]
      rfl

/-- Joining lists that are not empty gives a list at least as long as their number. -/
theorem length_le_joinWith {α : Type} (separator : List α) {parts : List (List α)}
    (h : ∀ part ∈ parts, part ≠ []) : parts.length ≤ (joinWith separator parts).length := by
  induction parts with
  | nil => exact Nat.zero_le _
  | cons first rest ih =>
    have hfirst := List.length_pos_iff.mpr (h first List.mem_cons_self)
    have hrest := ih fun part hp => h part (List.mem_cons_of_mem _ hp)
    cases rest with
    | nil => exact hfirst
    | cons next more =>
      simp only [joinWith, List.length_append, List.length_cons] at hfirst hrest ⊢
      omega

theorem readSeparated_single {α : Type} {k : Keyword}
    {item : List Token → Option (α × List Token)} {tokens rest : List Token} {a : α}
    (h : item tokens = some (a, rest)) (hend : rest.head? ≠ some (.keyword k)) {bound : Nat}
    (hbound : 0 < bound) : readSeparated k item bound tokens = some ([a], rest) := by
  obtain ⟨bound, rfl⟩ := Nat.exists_eq_succ_of_ne_zero (Nat.pos_iff_ne_zero.mp hbound)
  simp only [readSeparated, h, Option.bind_some]
  split
  next other _ =>
    have hne : other ≠ k := by
      rintro rfl
      exact hend rfl
    rw [if_neg hne]
  next => rfl

/-- Parts with a keyword between neighbours are read one by one, if each of them is read wherever
the keyword or what comes last follows it. -/
theorem readSeparated_join {α : Type} {k : Keyword} {item : List Token → Option (α × List Token)}
    {write : α → List Token} (follows : List Token → Prop) {rest : List Token} {parts : List α}
    (hitem : ∀ a ∈ parts, ∀ rest, follows rest → item (write a ++ rest) = some (a, rest))
    (hk : ∀ tail, follows (.keyword k :: tail)) (hrest : follows rest)
    (hend : rest.head? ≠ some (.keyword k)) (hne : parts ≠ []) {bound : Nat}
    (hbound : parts.length ≤ bound) :
    readSeparated k item bound (joinWith [.keyword k] (parts.map write) ++ rest) =
      some (parts, rest) := by
  induction parts generalizing bound with
  | nil => exact absurd rfl hne
  | cons first more ih =>
    cases bound with
    | zero => simp at hbound
    | succ bound =>
      have hfirst := hitem first List.mem_cons_self
      cases more with
      | nil => exact readSeparated_single (hfirst rest hrest) hend (Nat.succ_pos bound)
      | cons next more =>
        have hmore := ih (fun a ha => hitem a (List.mem_cons_of_mem _ ha)) (List.cons_ne_nil _ _)
          (Nat.le_of_succ_le_succ hbound)
        simp only [List.map_cons, joinWith, List.append_assoc] at hmore ⊢
        rw [readSeparated, List.singleton_append, hfirst _ (hk _), Option.bind_some]
        simp only [if_pos]
        rw [hmore]
        rfl

/-- Every part of a list that is joined is at most as long as the whole. -/
theorem length_le_joinWith_of_mem {α : Type} (separator : List α) {parts : List (List α)}
    {part : List α} (h : part ∈ parts) : part.length ≤ (joinWith separator parts).length := by
  induction parts with
  | nil => exact absurd h List.not_mem_nil
  | cons first rest ih =>
    cases rest with
    | nil => exact List.mem_singleton.mp h ▸ Nat.le_refl _
    | cons next more =>
      simp only [joinWith, List.length_append]
      rcases List.mem_cons.mp h with rfl | h
      · omega
      · have hpart := ih h
        omega

theorem grouped_of_two_le {join : List Clause → Clause} {parts : List Clause}
    (h : 2 ≤ parts.length) : grouped join parts = join parts := by
  match parts, h with
  | _ :: _ :: _, _ => rfl

theorem length_le_partTokens (separator : List Token) (parts : List Clause) :
    parts.length ≤ (joinWith separator (parts.map tokens)).length := by
  have hne : ∀ part ∈ parts.map tokens, part ≠ [] := by
    intro part hpart
    obtain ⟨clause, _, rfl⟩ := List.mem_map.mp hpart
    exact clause.tokens_ne_nil
  calc
    parts.length = (parts.map tokens).length := (List.length_map _).symm
    _ ≤ (joinWith separator (parts.map tokens)).length := length_le_joinWith separator hne

section
variable {inner : List Token → Option (Clause × List Token)}

/-- A condition in parentheses is a test. -/
theorem readTest_parentheses {clause : Clause} {ts rest : List Token}
    (h : inner (ts ++ .sign [')'] :: rest) = some (clause, .sign [')'] :: rest)) :
    readTest inner (.sign ['('] :: (ts ++ [.sign [')']]) ++ rest) = some (clause, rest) := by
  rw [List.cons_append, List.append_assoc, List.singleton_append, readTest, h]
  rfl

/-- A test is a conjunction of one part. -/
theorem readConjunction_single {clause : Clause} {tokens rest : List Token}
    (h : readTest inner tokens = some (clause, rest)) (ht : tokens ≠ [])
    (hend : rest.head? ≠ some (.keyword .AND)) :
    readConjunction inner tokens = some (clause, rest) := by
  rw [readConjunction, readSeparated_single h hend (List.length_pos_iff.mpr ht)]
  rfl

theorem readConjunction_join {parts : List Clause} (hlen : 2 ≤ parts.length)
    (h : ∀ part ∈ parts, ∀ rest, readTest inner (part.tokens ++ rest) = some (part, rest))
    {rest : List Token} (hend : rest.head? ≠ some (.keyword .AND)) :
    readConjunction inner (joinWith [.keyword .AND] (parts.map tokens) ++ rest) =
      some (.all parts, rest) := by
  have hcount := length_le_partTokens [.keyword .AND] parts
  rw [readConjunction, readSeparated_join (fun _ => True) (fun part hp rest _ => h part hp rest)
    (fun _ => trivial) trivial hend (List.ne_nil_of_length_pos (by omega))
    (Nat.le_trans hcount (by simp))]
  simp only [Option.map_some, grouped_of_two_le hlen]

end

/-- A conjunction is a condition of one part. -/
theorem readCondition_single {depth : Nat} {clause : Clause} {tokens rest : List Token}
    (h : readConjunction (readCondition depth) tokens = some (clause, rest)) (ht : tokens ≠ [])
    (hend : rest.head? ≠ some (.keyword .OR)) :
    readCondition (depth + 1) tokens = some (clause, rest) := by
  rw [readCondition, readSeparated_single h hend (List.length_pos_iff.mpr ht)]
  rfl

theorem readCondition_join {depth : Nat} {parts : List Clause} (hlen : 2 ≤ parts.length)
    (h : ∀ part ∈ parts, ∀ rest,
      readTest (readCondition depth) (part.tokens ++ rest) = some (part, rest))
    {rest : List Token} (hand : rest.head? ≠ some (.keyword .AND))
    (hor : rest.head? ≠ some (.keyword .OR)) :
    readCondition (depth + 1) (joinWith [.keyword .OR] (parts.map tokens) ++ rest) =
      some (.any parts, rest) := by
  have hcount := length_le_partTokens [.keyword .OR] parts
  have hpart : ∀ part ∈ parts, ∀ rest : List Token, rest.head? ≠ some (.keyword .AND) →
      readConjunction (readCondition depth) (part.tokens ++ rest) = some (part, rest) :=
    fun part hp rest hend => readConjunction_single (h part hp rest)
      (by simp [part.tokens_ne_nil]) hend
  rw [readCondition, readSeparated_join (k := .OR) (·.head? ≠ some (.keyword .AND)) hpart
    (fun _ => nofun) hand hor (List.ne_nil_of_length_pos (by omega))
    (Nat.le_trans hcount (by simp))]
  simp only [Option.map_some, grouped_of_two_le hlen]

/-- What the length of a joined condition says about its parts, which stand one pair of parentheses
deeper. -/
theorem depth_of_joined {k : Keyword} {parts : List Clause} {bound : Nat}
    (h : (Token.sign ['('] :: (joinWith [.keyword k] (parts.map tokens) ++ [.sign [')']])).length ≤
      bound) :
    ∃ depth, bound = depth + 1 ∧ ∀ part ∈ parts, part.tokens.length ≤ depth := by
  simp only [List.length_cons, List.length_append, List.length_nil] at h
  refine ⟨bound - 1, by omega, fun part hpart => ?_⟩
  have hle := length_le_joinWith_of_mem [.keyword k] (List.mem_map_of_mem (f := tokens) hpart)
  omega

/-- The tokens of a condition are read as the condition, if parentheses may be as deep as the
condition is long. The induction goes along the condition; the parts of a conjunction are tests and
those of a disjunction are conjunctions of one test. -/
theorem Readable.readTest {clause : Clause} (h : clause.Readable) {depth : Nat}
    (hdepth : clause.tokens.length ≤ depth) (rest : List Token) :
    readTest (readCondition depth) (clause.tokens ++ rest) = some (clause, rest) := by
  induction h generalizing depth rest with
  | compare _ relation operand =>
    simp only [tokens, List.cons_append, List.nil_append, Clause.readTest, relation?_sign]
    rfl
  | isNull => rfl
  | isNotNull => rfl
  | oneOf _ ho =>
    simp only [tokens, operandTokens, List.cons_append, List.nil_append, List.append_assoc,
      Clause.readTest, readOperands_join ho]
    rfl
  | noneOf _ ho =>
    simp only [tokens, operandTokens, List.cons_append, List.nil_append, List.append_assoc,
      Clause.readTest, readOperands_join ho]
    rfl
  | constant b => cases b <;> rfl
  | all hlen _ ih =>
    rw [tokens, partTokens_eq_map] at hdepth ⊢
    obtain ⟨depth, rfl, hpart⟩ := depth_of_joined hdepth
    refine readTest_parentheses (readCondition_single ?_ (by simp) nofun)
    exact readConjunction_join hlen (fun part hp rest => ih part hp (hpart part hp) rest) nofun
  | any hlen _ ih =>
    rw [tokens, partTokens_eq_map] at hdepth ⊢
    obtain ⟨depth, rfl, hpart⟩ := depth_of_joined hdepth
    exact readTest_parentheses (readCondition_join hlen
      (fun part hp rest => ih part hp (hpart part hp) rest) nofun nofun)

end Clause

end RecordStore
