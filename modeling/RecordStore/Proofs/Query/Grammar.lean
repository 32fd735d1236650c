import RecordStore.Proofs.Query.Keys

/-!
# The grammar of filters

Which JSON values are filters, said without the reader: `Filter.IsFilter`. What tree such a value
stands for: `Filter.Denotes`, with one node for each condition and each conjunction or disjunction, in
the order of the members. The reader accepts exactly the values of the grammar, and it gives exactly
the tree that they denote.
-/

namespace RecordStore

/-! ## Keys of columns -/

/-- A letter of `[a-zA-Z]`. -/
def IsLetter (c : Char) : Prop := 'a' ≤ c ∧ c ≤ 'z' ∨ 'A' ≤ c ∧ c ≤ 'Z'

/-- A digit of `[0-9]`. -/
def IsDigit (c : Char) : Prop := '0' ≤ c ∧ c ≤ '9'

/-- A text that has the form `[a-zA-Z_][a-zA-Z0-9_]*` from its beginning to its very end. -/
def IsColumnKey (key : String) : Prop := ∃ first rest, key.toList = first :: rest ∧
  (IsLetter first ∨ first = '_') ∧ ∀ c ∈ rest, IsLetter c ∨ IsDigit c ∨ c = '_'

theorem isLetter_iff {c : Char} : c.isAlpha = true ↔ IsLetter c := by
  have halpha : c.isAlpha = (decide ('A' ≤ c ∧ c ≤ 'Z') ||
      (decide ('a' ≤ c) && decide (c ≤ 'z'))) := rfl
  simp only [halpha, Bool.or_eq_true, Bool.and_eq_true, decide_eq_true_eq, IsLetter]
  exact or_comm

theorem isDigit_iff {c : Char} : c.isDigit = true ↔ IsDigit c := by
  have hdigit : c.isDigit = (decide ('0' ≤ c) && decide (c ≤ '9')) := rfl
  simp only [hdigit, Bool.and_eq_true, decide_eq_true_eq, IsDigit]

theorem isIdentifier_iff {key : String} : isIdentifier key = true ↔ IsColumnKey key := by
  unfold isIdentifier IsColumnKey
  cases key.toList with
  | nil => simp [isIdentifierChars]
  | cons first rest =>
    simp only [isIdentifierChars, isIdentifierStart, isIdentifierRest, Char.isAlphanum,
      Bool.and_eq_true, Bool.or_eq_true, List.all_eq_true, decide_eq_true_eq, isLetter_iff,
      isDigit_iff, or_assoc, List.cons.injEq]
    constructor
    · rintro ⟨hfirst, hrest⟩
      exact ⟨first, rest, ⟨rfl, rfl⟩, hfirst, hrest⟩
    · rintro ⟨_, _, ⟨rfl, rfl⟩, hfirst, hrest⟩
      exact ⟨hfirst, hrest⟩

theorem IsColumnKey.ne_join {key : String} (h : IsColumnKey key) : ¬ (key = "$and" ∨ key = "$or") := by
  have hidentifier := isIdentifier_iff.mpr h
  rintro (rfl | rfl)
  · exact absurd hidentifier (by decide)
  · exact absurd hidentifier (by decide)

namespace Filter

/-! ## Comparisons in short -/

/-- A text is a comparison with a number in short: a mark of the comparison in front of the number,
which may have blanks around it. -/
def IsShorthand (text : String) (comparison : Comparison) (n : Number) : Prop :=
  ∃ mark rest, (mark, comparison) ∈ marks ∧ text.toList = mark ++ rest ∧
    Number.ofChars? (trim rest) = some n

theorem trim_equals (rest : List Char) : ∃ more, trim ('=' :: rest) = '=' :: more := by
  have hstart : trimStart ('=' :: rest) = '=' :: rest := List.dropWhile_cons_of_neg (by decide)
  rw [trim, hstart, trimStart, List.reverse_cons, List.dropWhile_append]
  split
  · exact ⟨[], rfl⟩
  · exact ⟨(rest.reverse.dropWhile isBlank).reverse, by rw [List.reverse_append]; rfl⟩

/-- No number starts with an equals sign. -/
theorem ofChars?_equals (more : List Char) : Number.ofChars? ('=' :: more) = none := by
  have hsign : Decimal.splitSign ('=' :: more) = (false, '=' :: more) := rfl
  have hinteger : integerOfText? ('=' :: more) = none := by
    simp only [integerOfText?, hsign]
    rw [if_pos (.inr (by simp))]
  have hdecimal : Decimal.ofText? ('=' :: more) = none := by
    simp [Decimal.ofText?, hsign, Decimal.unsigned?]
  simp only [Number.ofChars?, hinteger, hdecimal, Option.map_none]

/-- What stands behind a mark with a number does not prolong the mark. -/
theorem head?_of_number {rest : List Char} {n : Number} (h : Number.ofChars? (trim rest) = some n) :
    rest.head? ≠ some '=' := by
  intro hhead
  obtain ⟨more, rfl⟩ := List.head?_eq_some_iff.mp hhead
  obtain ⟨trimmed, htrim⟩ := trim_equals more
  rw [htrim, ofChars?_equals] at h
  cases h

/-- The mark in front of a number is the first one in the list that the text starts with. -/
theorem find?_marks {mark rest : List Char} {comparison : Comparison}
    (hmark : (mark, comparison) ∈ marks) (hhead : rest.head? ≠ some '=') :
    marks.find? (fun (known, _) => known.isPrefixOf (mark ++ rest)) = some (mark, comparison) := by
  -- only `>` and `<` are beginnings of longer marks, so that the rest matters
  have hrest : ['='].isPrefixOf rest = false := by
    cases rest with
    | nil => rfl
    | cons c more =>
      have hc : ('=' == c) = false := by
        rw [beq_eq_false_iff_ne]
        rintro rfl
        exact hhead rfl
      simp [List.isPrefixOf, hc]
  simp only [marks, List.mem_cons, Prod.mk.injEq, List.not_mem_nil, or_false] at hmark
  rcases hmark with ⟨rfl, rfl⟩ | ⟨rfl, rfl⟩ | ⟨rfl, rfl⟩ | ⟨rfl, rfl⟩ | ⟨rfl, rfl⟩ | ⟨rfl, rfl⟩ <;>
    simp [marks, List.find?, List.isPrefixOf, hrest]

theorem ofShorthand_of_isShorthand {column text : String} {comparison : Comparison} {n : Number}
    (h : IsShorthand text comparison n) :
    ofShorthand column text = ⟨column, comparison, .number n⟩ := by
  obtain ⟨mark, rest, hmark, htext, hn⟩ := h
  have hfind := find?_marks hmark (head?_of_number hn)
  simp only [ofShorthand, htext, hfind, Option.bind_some, List.drop_left, hn, Option.map_some]

/-- What a text for a column compares with: a number if it is a comparison in short, and itself
otherwise. -/
theorem ofShorthand_cases (column text : String) :
    (∃ comparison n, IsShorthand text comparison n ∧
      ofShorthand column text = ⟨column, comparison, .number n⟩) ∨
    (∀ comparison n, ¬ IsShorthand text comparison n) ∧
      ofShorthand column text = ⟨column, .equal, .string text⟩ := by
  by_cases h : ∃ comparison n, IsShorthand text comparison n
  · obtain ⟨comparison, n, h⟩ := h
    exact .inl ⟨comparison, n, h, ofShorthand_of_isShorthand h⟩
  · refine .inr ⟨fun comparison n hs => h ⟨comparison, n, hs⟩, ?_⟩
    unfold ofShorthand
    simp only
    split
    next hnumber =>
      obtain ⟨⟨mark, found⟩, hmark, hn⟩ := Option.bind_eq_some_iff.mp hnumber
      obtain ⟨n, hn, -⟩ := Option.map_eq_some_iff.mp hn
      have hprefix := List.find?_some hmark
      obtain ⟨rest, hrest⟩ := List.isPrefixOf_iff_prefix.mp hprefix
      refine absurd ⟨found, n, mark, rest, List.mem_of_find?_eq_some hmark, hrest.symm, ?_⟩ h
      rwa [← hrest, List.drop_left] at hn
    · rfl

/-! ## Values of columns -/

/-- The eight operators, with what they compare. -/
def operators : List (String × Comparison) :=
  [("$eq", .equal), ("$ne", .notEqual), ("$gt", .greater), ("$gte", .atLeast), ("$lt", .less),
    ("$lte", .atMost), ("$in", .oneOf), ("$nin", .noneOf)]

/-- Membership asks for a list, and no other comparison does. -/
theorem expectsList_iff {key : String} {comparison : Comparison}
    (h : (key, comparison) ∈ operators) :
    comparison.expectsList = true ↔ key = "$in" ∨ key = "$nin" := by
  have hall : ∀ operator ∈ operators,
      (operator.2.expectsList = true ↔ operator.1 = "$in" ∨ operator.1 = "$nin") := by decide
  exact hall _ h

theorem ofOperator?_eq_some_iff {key : String} {comparison : Comparison} :
    Comparison.ofOperator? key = some comparison ↔ (key, comparison) ∈ operators := by
  have hall : operators = Comparison.all.map fun c => (c.operator, c) := by decide
  have hinjective : ∀ a ∈ Comparison.all, ∀ b ∈ Comparison.all, a.operator = b.operator → a = b := by
    decide
  have hmem : comparison ∈ Comparison.all := by cases comparison <;> decide
  rw [hall, List.mem_map, Comparison.ofOperator?]
  constructor
  · intro h
    have hkey := List.find?_some h
    exact ⟨comparison, hmem, by rw [of_decide_eq_true hkey]⟩
  · rintro ⟨c, hc, heq⟩
    cases heq
    cases hfind : Comparison.all.find? (fun c => c.operator = comparison.operator) with
    | none => exact absurd (decide_eq_true rfl) (List.find?_eq_none.mp hfind comparison hmem)
    | some found =>
      have hsame := List.find?_some hfind
      rw [hinjective found (List.mem_of_find?_eq_some hfind) comparison hmem
        (of_decide_eq_true hsame)]

/-- An operator and what it compares with: one of the eight, and a list if it asks for
membership. -/
def IsOperand (key : String) (value : Json) : Prop :=
  key ∈ operators.map (·.1) ∧ (key = "$in" ∨ key = "$nin" → ∃ items, value = .array items)

/-- The values that a column may have in a filter. -/
inductive IsColumnValue : Json → Prop
  | null : IsColumnValue .null
  | bool (b : Bool) : IsColumnValue (.bool b)
  | number (n : Number) : IsColumnValue (.number n)
  | string (s : String) : IsColumnValue (.string s)
  | operators {members : List (String × Json)}
      (h : ∀ member ∈ members, IsOperand member.1 member.2) : IsColumnValue (.object members)

/-- The condition that an operator with its value stands for. -/
inductive OperandDenotes (column : String) : String × Json → Condition → Prop
  | mk {key : String} {comparison : Comparison} {value : Json}
      (hkey : (key, comparison) ∈ operators)
      (hvalue : key = "$in" ∨ key = "$nin" → ∃ items, value = .array items) :
      OperandDenotes column (key, value) ⟨column, comparison, value⟩

/-- The conditions on a column that its value stands for: one for a scalar, and one for each
operator, with the very value that is given except for a comparison in short. -/
inductive ColumnDenotes (column : String) : Json → List Condition → Prop
  | null : ColumnDenotes column .null [⟨column, .equal, .null⟩]
  | bool (b : Bool) : ColumnDenotes column (.bool b) [⟨column, .equal, .bool b⟩]
  | number (n : Number) : ColumnDenotes column (.number n) [⟨column, .equal, .number n⟩]
  | shorthand {text : String} {comparison : Comparison} {n : Number}
      (h : IsShorthand text comparison n) :
      ColumnDenotes column (.string text) [⟨column, comparison, .number n⟩]
  | text {text : String} (h : ∀ comparison n, ¬ IsShorthand text comparison n) :
      ColumnDenotes column (.string text) [⟨column, .equal, .string text⟩]
  | operators {members : List (String × Json)} {cs : List Condition}
      (h : List.Forall₂ (OperandDenotes column) members cs) :
      ColumnDenotes column (.object members) cs

theorem ofOperator_eq_ok_iff {column key : String} {value : Json} {c : Condition} :
    ofOperator column key value = .ok c ↔ OperandDenotes column (key, value) c := by
  constructor
  · intro h
    obtain ⟨comparison, hkey, rfl, haccepted⟩ := ofOperator_eq_ok h
    have hmem := ofOperator?_eq_some_iff.mp hkey
    exact ⟨hmem, fun hlist => haccepted ((expectsList_iff hmem).mpr hlist)⟩
  · rintro ⟨hkey, hvalue⟩
    unfold ofOperator
    rw [ofOperator?_eq_some_iff.mpr hkey]
    cases value with
    | array items => rfl
    | null | bool _ | number _ | string _ | object _ =>
      refine if_neg fun hlist => ?_
      obtain ⟨items, hitems⟩ := hvalue ((expectsList_iff hkey).mp hlist)
      cases hitems

theorem ofOperator_isOk_iff {column key : String} {value : Json} :
    (∃ c, ofOperator column key value = .ok c) ↔ IsOperand key value := by
  simp only [ofOperator_eq_ok_iff]
  constructor
  · rintro ⟨_, hkey, hvalue⟩
    exact ⟨List.mem_map_of_mem hkey, hvalue⟩
  · rintro ⟨hkey, hvalue⟩
    obtain ⟨⟨_, comparison⟩, hmem, rfl⟩ := List.mem_map.mp hkey
    exact ⟨_, hmem, hvalue⟩

/-- A list of operators is read as the conditions that they stand for, in order. -/
theorem mapM_ofOperator_eq_ok_iff {column : String} {members : List (String × Json)}
    {cs : List Condition} :
    (members.mapM fun (key, value) => ofOperator column key value) = .ok cs ↔
      List.Forall₂ (OperandDenotes column) members cs := by
  rw [mapM_eq_ok_iff]
  simp only [ofOperator_eq_ok_iff]

theorem ofColumn_eq_ok_iff {column : String} {value : Json} {cs : List Condition} :
    ofColumn column value = .ok cs ↔ ColumnDenotes column value cs := by
  cases value with
  | null | bool _ | number _ =>
    constructor
    · rintro ⟨⟩
      constructor
    · rintro ⟨⟩
      rfl
  | string text =>
    rw [ofColumn, Except.ok.injEq]
    constructor
    · rintro rfl
      rcases ofShorthand_cases column text with ⟨comparison, n, hn, heq⟩ | ⟨hnone, heq⟩
      · exact heq ▸ .shorthand hn
      · exact heq ▸ .text hnone
    · rintro (_ | _ | _ | hn | hnone)
      · rw [ofShorthand_of_isShorthand hn]
      · rcases ofShorthand_cases column text with ⟨comparison, n, hn, _⟩ | ⟨_, heq⟩
        · exact absurd hn (hnone comparison n)
        · rw [heq]
  | array items =>
    constructor
    · rintro ⟨⟩
    · rintro ⟨⟩
  | object members =>
    rw [ofColumn, mapM_ofOperator_eq_ok_iff]
    constructor
    · exact .operators
    · rintro (_ | _ | _ | _ | _ | h)
      exact h

theorem ofColumn_isOk_iff {column : String} {value : Json} :
    (∃ cs, ofColumn column value = .ok cs) ↔ IsColumnValue value := by
  constructor
  · rintro ⟨cs, h⟩
    cases value with
    | null => exact .null
    | bool b => exact .bool b
    | number n => exact .number n
    | string text => exact .string text
    | array items => cases h
    | object members =>
      refine .operators fun member hmember => ?_
      obtain ⟨c, _, hc⟩ := exists_of_mapM h hmember
      exact ofOperator_isOk_iff.mp ⟨c, hc⟩
  · rintro (_ | _ | _ | _ | hmembers)
    · exact ⟨_, rfl⟩
    · exact ⟨_, rfl⟩
    · exact ⟨_, rfl⟩
    · exact ⟨_, rfl⟩
    · exact mapM_isOk fun member hmember => ofOperator_isOk_iff.mpr (hmembers member hmember)

/-! ## Filters -/

mutual

/-- The JSON values that are filters. -/
inductive IsFilter : Json → Prop
  | object {members : List (String × Json)}
      (h : ∀ member ∈ members, IsMember member.1 member.2) : IsFilter (.object members)

/-- What a member of a filter may be: a list of filters to join, or a column with a value. -/
inductive IsMember : String → Json → Prop
  | join {key : String} {items : List Json} (hkey : key = "$and" ∨ key = "$or")
      (hitems : ∀ item ∈ items, IsFilter item) : IsMember key (.array items)
  | column {key : String} {value : Json} (hkey : IsColumnKey key) (hvalue : IsColumnValue value) :
      IsMember key value

end

mutual

/-- The tree that a value stands for: the conjunction of what its members stand for. -/
inductive Denotes : Json → Filter → Prop
  | object {members : List (String × Json)} {parts : List Filter}
      (h : MembersDenote members parts) : Denotes (.object members) (.all parts)

/-- What a member stands for: a list of filters for their join, and a column with a value for its
conditions. -/
inductive MemberDenotes : String → Json → List Filter → Prop
  | and {items : List Json} {found : List Filter} (hitems : ItemsDenote items found) :
      MemberDenotes "$and" (.array items) [.all found]
  | or {items : List Json} {found : List Filter} (hitems : ItemsDenote items found) :
      MemberDenotes "$or" (.array items) [.any found]
  | column {key : String} {value : Json} {cs : List Condition} (hkey : IsColumnKey key)
      (hvalue : ColumnDenotes key value cs) : MemberDenotes key value (cs.map .condition)

/-- What members stand for, in their order. -/
inductive MembersDenote : List (String × Json) → List Filter → Prop
  | nil : MembersDenote [] []
  | cons {key : String} {value : Json} {here more : List Filter} {rest : List (String × Json)}
      (hmember : MemberDenotes key value here) (hrest : MembersDenote rest more) :
      MembersDenote ((key, value) :: rest) (here ++ more)

/-- What the filters of a list stand for, in their order. -/
inductive ItemsDenote : List Json → List Filter → Prop
  | nil : ItemsDenote [] []
  | cons {item : Json} {part : Filter} {rest : List Json} {more : List Filter}
      (hitem : Denotes item part) (hrest : ItemsDenote rest more) :
      ItemsDenote (item :: rest) (part :: more)

end

theorem ofMember_eq_ok_iff {key : String} {value : Json} {cs : List Condition} :
    ofMember key value = .ok cs ↔ IsColumnKey key ∧ ofColumn key value = .ok cs := by
  unfold ofMember
  rw [← isIdentifier_iff]
  constructor
  · intro h
    split at h
    · cases h
    · cases h
    · split at h
      next hkey => exact ⟨hkey, h⟩
      · cases h
  · rintro ⟨hkey, hcolumn⟩
    rw [Comparison.ofOperator?_identifier hkey]
    exact (if_pos hkey).trans hcolumn

section
variable {rest : List (String × Json)} {more : List Filter} (hrest : ofMembers rest = .ok more)
include hrest

theorem ofMembers_join {key : String} {items : List Json} {found : List Filter}
    (hkey : key = "$and" ∨ key = "$or") (hitems : ofItems items = .ok found) :
    ofMembers ((key, .array items) :: rest) =
      .ok ((if key = "$and" then .all found else .any found) :: more) := by
  unfold ofMembers
  simp only [if_pos hkey, hitems, hrest, ok_bind]
  rfl

theorem ofMembers_column {key : String} {value : Json} {cs : List Condition} (hkey : IsColumnKey key)
    (hcolumn : ofColumn key value = .ok cs) :
    ofMembers ((key, value) :: rest) = .ok (cs.map .condition ++ more) := by
  unfold ofMembers
  simp only [if_neg hkey.ne_join, ofMember_eq_ok_iff.mpr ⟨hkey, hcolumn⟩, hrest]
  rfl

end

mutual

/-- A value that is read stands for the tree that is read. -/
theorem denotes_of_ofJson : ∀ {value : Json} {f : Filter}, ofJson value = .ok f → Denotes value f
  | .object members, f, h => by
    rw [ofJson] at h
    obtain ⟨parts, hparts, rfl⟩ := map_eq_ok.mp h
    exact .object (membersDenote_of_ofMembers hparts)
  | .null, _, h | .bool _, _, h | .number _, _, h | .string _, _, h | .array _, _, h => by
    simp [ofJson] at h

theorem membersDenote_of_ofMembers : ∀ {members : List (String × Json)} {parts : List Filter},
    ofMembers members = .ok parts → MembersDenote members parts
  | [], parts, h => by
    rw [ofMembers, Except.ok.injEq] at h
    exact h ▸ .nil
  | (key, value) :: rest, parts, h => by
    obtain ⟨here, more, hmore, rfl, hhere⟩ := ofMembers_cons h
    have hrest := membersDenote_of_ofMembers hmore
    split at hhere
    next hkey =>
      obtain ⟨items, found, rfl, hitems, rfl⟩ := hhere
      have hfound := itemsDenote_of_ofItems hitems
      rcases hkey with rfl | rfl
      · exact .cons (.and hfound) hrest
      · exact .cons (.or hfound) hrest
    next =>
      obtain ⟨cs, hcs, rfl⟩ := hhere
      obtain ⟨hkey, hcolumn⟩ := ofMember_eq_ok_iff.mp hcs
      exact .cons (.column hkey (ofColumn_eq_ok_iff.mp hcolumn)) hrest

theorem itemsDenote_of_ofItems : ∀ {items : List Json} {parts : List Filter},
    ofItems items = .ok parts → ItemsDenote items parts
  | [], parts, h => by
    rw [ofItems, Except.ok.injEq] at h
    exact h ▸ .nil
  | item :: rest, parts, h => by
    simp only [ofItems, bind_eq_ok, Except.ok.injEq] at h
    obtain ⟨part, hpart, more, hmore, rfl⟩ := h
    exact .cons (denotes_of_ofJson hpart) (itemsDenote_of_ofItems hmore)

end

mutual

/-- The tree that a value stands for is read from it. -/
theorem ofJson_of_denotes : ∀ {value : Json} {f : Filter}, Denotes value f → ofJson value = .ok f
  | _, _, .object h => by
    rw [ofJson, ofMembers_of_membersDenote h]
    rfl
termination_by structural _ _ h => h

theorem ofMembers_of_memberDenotes : ∀ {key : String} {value : Json} {here : List Filter},
    MemberDenotes key value here → ∀ {rest : List (String × Json)} {more : List Filter},
      ofMembers rest = .ok more → ofMembers ((key, value) :: rest) = .ok (here ++ more)
  | _, _, _, .and hitems, _, _, hrest =>
    ofMembers_join hrest (.inl rfl) (ofItems_of_itemsDenote hitems)
  | _, _, _, .or hitems, _, _, hrest =>
    ofMembers_join hrest (.inr rfl) (ofItems_of_itemsDenote hitems)
  | _, _, _, .column hkey hvalue, _, _, hrest =>
    ofMembers_column hrest hkey (ofColumn_eq_ok_iff.mpr hvalue)
termination_by structural _ _ _ h => h

theorem ofMembers_of_membersDenote : ∀ {members : List (String × Json)} {parts : List Filter},
    MembersDenote members parts → ofMembers members = .ok parts
  | _, _, .nil => by rw [ofMembers]
  | _, _, .cons hmember hrest =>
    ofMembers_of_memberDenotes hmember (ofMembers_of_membersDenote hrest)
termination_by structural _ _ h => h

theorem ofItems_of_itemsDenote : ∀ {items : List Json} {parts : List Filter},
    ItemsDenote items parts → ofItems items = .ok parts
  | _, _, .nil => by rw [ofItems]
  | _, _, .cons hitem hrest => by
    rw [ofItems, ofJson_of_denotes hitem, ok_bind, ofItems_of_itemsDenote hrest, ok_bind]
termination_by structural _ _ h => h

end

theorem exists_membersDenote {members : List (String × Json)}
    (h : ∀ member ∈ members, ∃ parts, MemberDenotes member.1 member.2 parts) :
    ∃ parts, MembersDenote members parts := by
  induction members with
  | nil => exact ⟨_, .nil⟩
  | cons member rest ih =>
    rw [List.forall_mem_cons] at h
    obtain ⟨here, hhere⟩ := h.1
    obtain ⟨more, hmore⟩ := ih h.2
    exact ⟨_, .cons hhere hmore⟩

theorem exists_itemsDenote {items : List Json} (h : ∀ item ∈ items, ∃ f, Denotes item f) :
    ∃ parts, ItemsDenote items parts := by
  induction items with
  | nil => exact ⟨_, .nil⟩
  | cons item rest ih =>
    rw [List.forall_mem_cons] at h
    obtain ⟨part, hpart⟩ := h.1
    obtain ⟨more, hmore⟩ := ih h.2
    exact ⟨_, .cons hpart hmore⟩

mutual

/-- A value of the grammar stands for a tree. -/
theorem IsFilter.denotes : ∀ {value : Json}, IsFilter value → ∃ f, Denotes value f
  | _, .object h => by
    obtain ⟨parts, hparts⟩ := exists_membersDenote fun member hmember => (h member hmember).denotes
    exact ⟨_, .object hparts⟩
termination_by structural _ h => h

theorem IsMember.denotes : ∀ {key : String} {value : Json}, IsMember key value →
    ∃ parts, MemberDenotes key value parts
  | _, _, .join hkey hitems => by
    obtain ⟨found, hfound⟩ := exists_itemsDenote fun item hitem => (hitems item hitem).denotes
    rcases hkey with rfl | rfl
    · exact ⟨_, .and hfound⟩
    · exact ⟨_, .or hfound⟩
  | _, _, .column hkey hvalue => by
    obtain ⟨cs, hcs⟩ := ofColumn_isOk_iff.mpr hvalue
    exact ⟨_, .column hkey (ofColumn_eq_ok_iff.mp hcs)⟩
termination_by structural _ _ h => h

end

mutual

/-- A value that stands for a tree is one of the grammar. -/
theorem Denotes.isFilter : ∀ {value : Json} {f : Filter}, Denotes value f → IsFilter value
  | _, _, .object h => .object h.isMember
termination_by structural _ _ h => h

theorem MemberDenotes.isMember : ∀ {key : String} {value : Json} {parts : List Filter},
    MemberDenotes key value parts → IsMember key value
  | _, _, _, .and hitems => .join (.inl rfl) hitems.isFilter
  | _, _, _, .or hitems => .join (.inr rfl) hitems.isFilter
  | _, _, _, .column hkey hvalue =>
    .column hkey (ofColumn_isOk_iff.mp ⟨_, ofColumn_eq_ok_iff.mpr hvalue⟩)
termination_by structural _ _ _ h => h

theorem MembersDenote.isMember : ∀ {members : List (String × Json)} {parts : List Filter},
    MembersDenote members parts → ∀ member ∈ members, IsMember member.1 member.2
  | _, _, .nil => List.forall_mem_nil _
  | _, _, .cons hmember hrest => List.forall_mem_cons.mpr ⟨hmember.isMember, hrest.isMember⟩
termination_by structural _ _ h => h

theorem ItemsDenote.isFilter : ∀ {items : List Json} {parts : List Filter},
    ItemsDenote items parts → ∀ item ∈ items, IsFilter item
  | _, _, .nil => List.forall_mem_nil _
  | _, _, .cons hitem hrest => List.forall_mem_cons.mpr ⟨hitem.isFilter, hrest.isFilter⟩
termination_by structural _ _ h => h

end

/-- The reader accepts exactly the values of the grammar and gives exactly the tree that they stand
for; anything else is an error of the query. -/
theorem ofJson_grammar (value : Json) :
    (IsFilter value → ∃ f, ofJson value = .ok f) ∧
    (¬ IsFilter value → ∃ cause : QueryError, ofJson value = .error cause) ∧
    ∀ f, ofJson value = .ok f ↔ IsFilter value ∧ Denotes value f := by
  refine ⟨fun h => ?_, fun h => ?_, fun f => ⟨fun h => ?_, fun h => ofJson_of_denotes h.2⟩⟩
  · obtain ⟨f, hf⟩ := h.denotes
    exact ⟨f, ofJson_of_denotes hf⟩
  · cases hread : ofJson value with
    | error cause => exact ⟨cause, rfl⟩
    | ok f => exact absurd (denotes_of_ofJson hread).isFilter h
  · have hdenotes := denotes_of_ofJson h
    exact ⟨hdenotes.isFilter, hdenotes⟩

/-! ## Equality with the members of a record -/

/-- The value that asks for equality with every member of a record. -/
def equalities (record : Record) : Json :=
  .object (record.map fun (key, value) => (key, .object [("$eq", value)]))

theorem ofMembers_equalities {record : Record}
    (h : ∀ member ∈ record, isIdentifier member.1 = true) :
    ofMembers (record.map fun (key, value) => (key, .object [("$eq", value)])) =
      .ok (record.map fun (key, value) => .condition ⟨key, .equal, value⟩) := by
  induction record with
  | nil => rfl
  | cons member rest ih =>
    obtain ⟨key, value⟩ := member
    rw [List.forall_mem_cons] at h
    have hoperator : OperandDenotes key ("$eq", value) ⟨key, .equal, value⟩ := by
      refine ⟨by decide, ?_⟩
      rintro (heq | heq) <;> exact absurd heq (by decide)
    have hcolumn : ofColumn key (.object [("$eq", value)]) = .ok [⟨key, .equal, value⟩] :=
      ofColumn_eq_ok_iff.mpr (.operators (.cons hoperator .nil))
    exact ofMembers_column (ih h.2) (isIdentifier_iff.mp h.1) hcolumn

/-- A record is asked for by equality with its members if its keys are identifiers. -/
theorem ofJson_equalities {record : Record} (h : ∀ member ∈ record, isIdentifier member.1 = true) :
    ofJson (equalities record) = .ok (.matching record) := by
  rw [equalities, ofJson, ofMembers_equalities h]
  rfl

end Filter

end RecordStore
