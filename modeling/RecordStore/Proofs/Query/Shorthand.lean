import RecordStore.Proofs.Query.Grammar
import RecordStore.Proofs.Number.Grammar

/-!
# Comparisons in short

A filter may give a column a plain value, or a text with a mark of comparison in front of a number.
Both stand for an object of one operator. At most one mark stands in front of a number, although some
marks are beginnings of others, and a text without such a mark is compared as it is. `Filter.spelledOut`
writes every such value as the object that it stands for, at any depth, and the reader makes the same
of both.
-/

namespace RecordStore

/-- The object of one operator that a condition stands for. -/
def Condition.operatorMap (c : Condition) : Json := .object [(c.comparison.operator, c.value)]

namespace Filter

/-! ## Marks in front of numbers -/

/-- A text starts with a mark, and behind it stands a number, which may have blanks around it. -/
def Marked (text : String) (mark : List Char) (comparison : Comparison) (n : Number) : Prop :=
  (mark, comparison) ∈ marks ∧ ∃ rest, text.toList = mark ++ rest ∧
    Number.ofText (String.ofList (trim rest)) = .ok n

variable {text : String} {mark : List Char} {comparison : Comparison} {n : Number}

theorem isShorthand_iff : IsShorthand text comparison n ↔ ∃ mark, Marked text mark comparison n := by
  simp only [IsShorthand, Marked, Number.ofText_eq_ok_iff, String.toList_ofList]
  constructor
  · rintro ⟨mark, rest, hmark, htext, hn⟩
    exact ⟨mark, hmark, rest, htext, hn⟩
  · rintro ⟨mark, hmark, rest, htext, hn⟩
    exact ⟨mark, rest, hmark, htext, hn⟩

/-- A text has at most one mark in front of a number. -/
theorem Marked.unique (h : Marked text mark comparison n) {mark' : List Char}
    {comparison' : Comparison} {n' : Number} (h' : Marked text mark' comparison' n') :
    mark' = mark := by
  have hcomparison : comparison' = comparison := by
    have hread : ofShorthand "" text = _ :=
      ofShorthand_of_isShorthand (isShorthand_iff.mpr ⟨mark, h⟩)
    have hread' : ofShorthand "" text = _ :=
      ofShorthand_of_isShorthand (isShorthand_iff.mpr ⟨mark', h'⟩)
    exact congrArg Condition.comparison (hread'.symm.trans hread)
  have hmarks : ∀ a ∈ marks, ∀ b ∈ marks, a.2 = b.2 → a = b := by decide
  exact congrArg Prod.fst (hmarks _ h'.1 _ h.1 hcomparison)

/-! ## Filters spelled out -/

/-- The object of operators that the value of a column stands for. -/
def spelledColumn (column : String) : Json → Json
  | .object operators => .object operators
  | .array items => .array items
  | .string text => (ofShorthand column text).operatorMap
  | value => (⟨column, .equal, value⟩ : Condition).operatorMap

mutual

/-- A filter with an object of operators for every column. -/
def spelledOut : Json → Json
  | .object members => .object (spelledMembers members)
  | value => value

/-- The value of a member: a list of filters to join is spelled out filter by filter. -/
def spelledMember (key : String) : Json → Json
  | .array items => if key = "$and" ∨ key = "$or" then .array (spelledItems items) else .array items
  | value => if key = "$and" ∨ key = "$or" then value else spelledColumn key value

def spelledMembers : List (String × Json) → List (String × Json)
  | [] => []
  | (key, value) :: rest => (key, spelledMember key value) :: spelledMembers rest

def spelledItems : List Json → List Json
  | [] => []
  | item :: rest => spelledOut item :: spelledItems rest

end

mutual

/-- Every column of a filter, at any depth, has an object of operators. -/
inductive IsSpelledOut : Json → Prop
  | object {members : List (String × Json)}
      (h : ∀ member ∈ members, MemberSpelledOut member.1 member.2) : IsSpelledOut (.object members)

inductive MemberSpelledOut : String → Json → Prop
  | join {key : String} {items : List Json} (hkey : key = "$and" ∨ key = "$or")
      (hitems : ∀ item ∈ items, IsSpelledOut item) : MemberSpelledOut key (.array items)
  | column {key : String} (hkey : IsColumnKey key) (operators : List (String × Json)) :
      MemberSpelledOut key (.object operators)

end

/-- An operator that is accepted is read as its condition. -/
theorem ofColumn_operatorMap {c : Condition} (hc : c.Accepted) :
    ofColumn c.column c.operatorMap = .ok [c] := by
  have hoperator : (c.comparison.operator, c.comparison) ∈ operators := by
    cases c.comparison <;> decide
  have hdenotes : OperandDenotes c.column (c.comparison.operator, c.value) c :=
    ⟨hoperator, fun hlist => hc ((expectsList_iff hoperator).mpr hlist)⟩
  exact ofColumn_eq_ok_iff.mpr (.operators (.cons hdenotes .nil))

/-- A column is read in the same way if its value is spelled out. -/
theorem ofColumn_spelledColumn (column : String) (value : Json) :
    ofColumn column (spelledColumn column value) = ofColumn column value := by
  cases value with
  | object operators => rfl
  | array items => rfl
  | string text =>
    obtain ⟨hcolumn, haccepted, _⟩ := ofShorthand_spec column text
    have hread := ofColumn_operatorMap haccepted
    rwa [hcolumn] at hread
  | null | bool _ | number _ =>
    exact ofColumn_operatorMap (c := ⟨column, .equal, _⟩) fun hlist => absurd hlist Bool.false_ne_true

theorem ofMember_spelledColumn (key : String) (value : Json) :
    ofMember key (spelledColumn key value) = ofMember key value := by
  unfold ofMember
  cases Comparison.ofOperator? key with
  | none => simp only [ofColumn_spelledColumn]
  | some comparison => cases value <;> rfl

theorem spelledMember_column {key : String} (hkey : ¬ (key = "$and" ∨ key = "$or")) (value : Json) :
    spelledMember key value = spelledColumn key value := by
  cases value <;> exact if_neg hkey

mutual

/-- A value is read in the same way if it is spelled out, also where it is refused. -/
theorem ofJson_spelledOut : ∀ value : Json, ofJson (spelledOut value) = ofJson value
  | .object members => by rw [spelledOut, ofJson, ofJson, ofMembers_spelledMembers members]
  | .null | .bool _ | .number _ | .string _ | .array _ => rfl

theorem ofMembers_spelledMembers : ∀ members : List (String × Json),
    ofMembers (spelledMembers members) = ofMembers members
  | [] => rfl
  | (key, value) :: rest => by
    unfold spelledMembers ofMembers
    simp only [ofMembers_spelledMembers rest]
    by_cases hkey : key = "$and" ∨ key = "$or"
    · cases value with
      | array items => simp only [spelledMember, if_pos hkey, ofItems_spelledItems items]
      | null | bool _ | number _ | string _ | object _ => simp only [spelledMember, if_pos hkey]
    · simp only [if_neg hkey, spelledMember_column hkey, ofMember_spelledColumn]

theorem ofItems_spelledItems : ∀ items : List Json, ofItems (spelledItems items) = ofItems items
  | [] => rfl
  | item :: rest => by
    rw [spelledItems, ofItems, ofItems, ofJson_spelledOut item, ofItems_spelledItems rest]

end

/-! ## Nothing in short is left -/

theorem spelledMembers_eq_map (members : List (String × Json)) :
    spelledMembers members = members.map fun member => (member.1, spelledMember member.1 member.2) := by
  induction members with
  | nil => rfl
  | cons member rest ih => rw [spelledMembers, ih, List.map_cons]

theorem spelledItems_eq_map (items : List Json) : spelledItems items = items.map spelledOut := by
  induction items with
  | nil => rfl
  | cons item rest ih => rw [spelledItems, ih, List.map_cons]

theorem IsColumnValue.spelledColumn {value : Json} (h : IsColumnValue value) (column : String) :
    ∃ operators, spelledColumn column value = .object operators := by
  cases h <;> exact ⟨_, rfl⟩

mutual

theorem IsFilter.isSpelledOut : ∀ {value : Json}, IsFilter value → IsSpelledOut (spelledOut value)
  | _, .object h => by
    rw [spelledOut, spelledMembers_eq_map]
    refine .object (List.forall_mem_map.mpr fun member hmember => ?_)
    exact (h member hmember).isSpelledOut
termination_by structural _ h => h

theorem IsMember.isSpelledOut : ∀ {key : String} {value : Json}, IsMember key value →
    MemberSpelledOut key (spelledMember key value)
  | _, _, .join hkey hitems => by
    rw [spelledMember, if_pos hkey, spelledItems_eq_map]
    exact .join hkey (List.forall_mem_map.mpr fun item hitem => (hitems item hitem).isSpelledOut)
  | key, _, .column hkey hvalue => by
    obtain ⟨operators, heq⟩ := hvalue.spelledColumn key
    rw [spelledMember_column hkey.ne_join, heq]
    exact .column hkey operators
termination_by structural _ _ h => h

end

/-! ## What a text is read as -/

/-- A condition is what a member of a filter is read as, at whatever depth and before whatever
members it stands. -/
def MemberReads (key : String) (value : Json) (c : Condition) : Prop :=
  ∀ rest more, ofMembers rest = .ok more →
    ofMembers ((key, value) :: rest) = .ok (.condition c :: more)

theorem memberReads_of_denotes {key : String} (hkey : IsColumnKey key) {value : Json} {c : Condition}
    (h : ColumnDenotes key value [c]) : MemberReads key value c :=
  fun _ _ hrest => ofMembers_column hrest hkey (ofColumn_eq_ok_iff.mpr h)

/-- A text that is given to a column is a comparison with a number if a mark stands in front of the
number, which is then the only mark that does, and otherwise it is compared as it is. To spell such
values out changes nothing about what a filter is read as. -/
theorem shorthand_spelled_out {key : String} (hkey : IsColumnKey key) (text : String) :
    (∀ mark comparison n, Marked text mark comparison n →
      MemberReads key (.string text) ⟨key, comparison, .number n⟩ ∧
        ∀ mark' comparison' n', Marked text mark' comparison' n' → mark' = mark) ∧
    ((∀ mark comparison n, ¬ Marked text mark comparison n) →
      MemberReads key (.string text) ⟨key, .equal, .string text⟩) ∧
    ∀ value f, ofJson value = .ok f →
      IsSpelledOut (spelledOut value) ∧ ofJson (spelledOut value) = .ok f := by
  refine ⟨fun mark comparison n h => ⟨?_, fun _ _ _ h' => h.unique h'⟩, fun hnone => ?_,
    fun value f h => ⟨(denotes_of_ofJson h).isFilter.isSpelledOut, ?_⟩⟩
  · exact memberReads_of_denotes hkey (.shorthand (isShorthand_iff.mpr ⟨mark, h⟩))
  · refine memberReads_of_denotes hkey (.text fun comparison n h => ?_)
    obtain ⟨mark, h⟩ := isShorthand_iff.mp h
    exact hnone mark comparison n h
  · rw [ofJson_spelledOut, h]

/-- Two ages: from thirty on, with blanks around the number, or none. -/
def ages : Json :=
  .object [("$or", .array [.object [("age", .string ">= 30 ")], .object [("age", .null)]])]

/-- The ages are spelled out, and a mark that is written the wrong way round is no mark. -/
theorem ages_spelled_out :
    Marked ">= 30 " ['>', '='] .atLeast (.ofInt64 30) ∧
      MemberReads "age" (.string ">= 30 ") ⟨"age", .atLeast, .number (.ofInt64 30)⟩ ∧
    (∀ mark comparison n, ¬ Marked "=>3" mark comparison n) ∧
      MemberReads "age" (.string "=>3") ⟨"age", .equal, .string "=>3"⟩ ∧
    ∃ f, ofJson ages = .ok f ∧ IsSpelledOut (spelledOut ages) ∧ ofJson (spelledOut ages) = .ok f := by
  have hkey : IsColumnKey "age" := isIdentifier_iff.mp (by decide)
  have hmarked : Marked ">= 30 " ['>', '='] .atLeast (.ofInt64 30) :=
    ⟨List.mem_cons_self, [' ', '3', '0', ' '], rfl, by decide⟩
  have hplain : ∀ mark comparison n, ¬ Marked "=>3" mark comparison n := by
    intro mark comparison n h
    have hread : ofShorthand "age" "=>3" = _ :=
      ofShorthand_of_isShorthand (isShorthand_iff.mpr ⟨mark, h⟩)
    have hself : ofShorthand "age" "=>3" = ⟨"age", .equal, .string "=>3"⟩ := by decide
    cases hself.symm.trans hread
  obtain ⟨f, hf⟩ : ∃ f, ofJson ages = .ok f := ⟨_, rfl⟩
  obtain ⟨hread, _, hspelled⟩ := shorthand_spelled_out hkey ">= 30 "
  obtain ⟨_, hsame, _⟩ := shorthand_spelled_out hkey "=>3"
  exact ⟨hmarked, (hread _ _ _ hmarked).1, hplain, hsame hplain, f, hf, hspelled ages f hf⟩

end Filter

end RecordStore
