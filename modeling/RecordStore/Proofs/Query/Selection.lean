import RecordStore.Proofs.Query.Meaning
import RecordStore.Proofs.Model.Validity
import RecordStore.Proofs.Sql.Statements

/-!
# What statements with a filter select

The names of a valid model, of its columns and of the paths of sort keys are identifiers, and the
compiler joins at least two clauses or none. So every statement that carries a filter can be read
back from its text and its parameters, and what is read selects exactly the rows of the table of the
model that the filter holds of.
-/

namespace RecordStore

/-! ## Names -/

theorem isIdentifierRest_of_isIdentifierChars {chars : List Char} (h : isIdentifierChars chars = true) :
    ∀ c ∈ chars, isIdentifierRest c = true := by
  cases chars with
  | nil => exact fun _ hc => absurd hc List.not_mem_nil
  | cons first rest =>
    rw [isIdentifierChars, Bool.and_eq_true, List.all_eq_true] at h
    intro c hc
    rcases List.mem_cons.mp hc with rfl | hc
    · have hstart := h.1
      simp only [isIdentifierStart, isIdentifierRest, Char.isAlphanum, Bool.or_eq_true] at hstart ⊢
      exact hstart.imp_left .inl
    · exact h.2 c hc

theorem zero_not_mem_of_isIdentifier {name : String} (h : isIdentifier name = true) :
    '\x00' ∉ name.toList := fun hz =>
  absurd (isIdentifierRest_of_isIdentifierChars h _ hz) (by decide)

namespace Model

variable {m : Model}

/-- The names that statements about a valid model are written with. -/
theorem validate_isIdentifier (h : m.validate = .ok ()) :
    isIdentifier m.tableName = true ∧ ∀ column ∈ m.columns, isIdentifier column.name = true := by
  have hsound := validate_eq_ok_iff.mp h
  refine ⟨hsound.table, fun column hcolumn => ?_⟩
  rcases List.mem_cons.mp hcolumn with rfl | hcolumn
  · decide
  · obtain ⟨f, hf, rfl⟩ := List.mem_map.mp hcolumn
    exact hsound.fields f hf

theorem resolve_mem {name : String} {column : Column} (h : m.resolve name = .ok column) :
    column ∈ m.columns := List.mem_of_find?_eq_some (resolve_eq_ok.mp h)

end Model

/-! ## Conditions -/

namespace Clause

/-- Conditions on columns whose names have a property, with lists that are not empty and at least
two parts joined. -/
inductive Over (P : String → Prop) : Clause → Prop
  | compare {column : String} (hp : P column) (relation : Relation) (operand : SqlValue) :
      Over P (.compare column relation operand)
  | isNull {column : String} (hp : P column) : Over P (.isNull column)
  | isNotNull {column : String} (hp : P column) : Over P (.isNotNull column)
  | oneOf {column : String} {operands : List SqlValue} (hp : P column) (ho : operands ≠ []) :
      Over P (.oneOf column operands)
  | noneOf {column : String} {operands : List SqlValue} (hp : P column) (ho : operands ≠ []) :
      Over P (.noneOf column operands)
  | constant (b : Bool) : Over P (.constant b)
  | all {parts : List Clause} (hlen : 2 ≤ parts.length) (h : ∀ part ∈ parts, Over P part) :
      Over P (.all parts)
  | any {parts : List Clause} (hlen : 2 ≤ parts.length) (h : ∀ part ∈ parts, Over P part) :
      Over P (.any parts)

theorem Over.readable {P : String → Prop} (hP : ∀ name, P name → '\x00' ∉ name.toList)
    {clause : Clause} (h : clause.Over P) : clause.Readable := by
  induction h with
  | compare hp relation operand => exact .compare (hP _ hp) relation operand
  | isNull hp => exact .isNull (hP _ hp)
  | isNotNull hp => exact .isNotNull (hP _ hp)
  | oneOf hp ho => exact .oneOf (hP _ hp) ho
  | noneOf hp ho => exact .noneOf (hP _ hp) ho
  | constant b => exact .constant b
  | all hlen _ ih => exact .all hlen ih
  | any hlen _ ih => exact .any hlen ih

end Clause

section
variable {P : String → Prop} {column : Column} (hp : P column.name)
include hp

theorem Condition.membership_over (negated : Bool) (items : List Json) :
    (membership column negated items).Over P := by
  rw [membership_eq]
  split
  · exact .constant negated
  split
  · cases negated with
    | true => exact .isNotNull hp
    | false => exact .isNull hp
  next hitems =>
    have hone : (Clause.oneOf column.name _).Over P := .oneOf hp hitems
    have hnone : (Clause.noneOf column.name _).Over P := .noneOf hp hitems
    have hnull : (Clause.isNull column.name).Over P := .isNull hp
    have hnotNull : (Clause.isNotNull column.name).Over P := .isNotNull hp
    split
    · exact .all (by simp) (by simp [hnone, hnotNull])
    · exact .any (by simp) (by simp [hnone, hnull])
    · exact .any (by simp) (by simp [hone, hnull])
    · exact hone

theorem Condition.relate_over {c : Condition} {relation : Relation} {clause : Clause}
    (h : c.relate column relation = .ok clause) : clause.Over P := by
  unfold relate at h
  split at h
  · cases h
  · cases h
    exact .compare hp relation _

theorem Condition.clauseOn_over {c : Condition} {clause : Clause}
    (h : c.clauseOn column = .ok clause) : clause.Over P := by
  unfold clauseOn at h
  split at h
  · cases h
    split
    · exact .isNull hp
    · exact .compare hp .equal _
  · cases h
    split
    · exact .isNotNull hp
    · have hcompare := Clause.Over.compare hp .notEqual (column.operand c.value)
      have hnull : (Clause.isNull column.name).Over P := .isNull hp
      exact .any (by simp) (by simp [hcompare, hnull])
  · exact relate_over hp h
  · exact relate_over hp h
  · exact relate_over hp h
  · exact relate_over hp h
  · split at h
    · cases h
      exact membership_over hp _ _
    · cases h
  · split at h
    · cases h
      exact membership_over hp _ _
    · cases h

end

theorem Clause.joined_over {P : String → Prop} {join : List Clause → Clause} {parts : List Clause}
    {clause : Clause}
    (hjoin : ∀ parts : List Clause, 2 ≤ parts.length → (∀ part ∈ parts, part.Over P) →
      (join parts).Over P)
    (hparts : ∀ part ∈ parts, part.Over P) (h : joined join parts = some clause) :
    clause.Over P := by
  match parts with
  | [] => cases h
  | [part] =>
    cases h
    exact hparts _ List.mem_cons_self
  | first :: second :: rest =>
    cases h
    exact hjoin _ (by simp) hparts

namespace Model

variable {m : Model}

/-- A name that the model gives to a column. -/
def Names (m : Model) (name : String) : Prop := ∃ column ∈ m.columns, column.name = name

theorem Names.isIdentifier (hm : m.validate = .ok ()) {name : String} (h : m.Names name) :
    isIdentifier name = true := by
  obtain ⟨column, hcolumn, rfl⟩ := h
  exact (validate_isIdentifier hm).2 column hcolumn

theorem Names.zero_not_mem (hm : m.validate = .ok ()) {name : String} (h : m.Names name) :
    '\x00' ∉ name.toList := zero_not_mem_of_isIdentifier (h.isIdentifier hm)

mutual

/-- The compiler writes conditions on the columns of the model. -/
theorem compile_over : ∀ {f : Filter} {condition : Option Clause}, m.compile f = .ok condition →
      ∀ clause ∈ condition, clause.Over m.Names
  | .all parts, condition, h => by
    simp only [compile, bind_eq_ok, Except.ok.injEq] at h
    obtain ⟨clauses, hc, rfl⟩ := h
    have hparts := compileParts_over hc
    exact fun clause hclause => Clause.joined_over (fun _ => .all) (by simpa using hparts) hclause
  | .any parts, condition, h => by
    simp only [compile, bind_eq_ok, Except.ok.injEq] at h
    obtain ⟨clauses, hc, rfl⟩ := h
    have hparts := compileParts_over hc
    intro clause hclause
    split at hclause
    · cases hclause
    · exact Clause.joined_over (fun _ => .any) (by simpa using hparts) hclause
  | .condition c, condition, h => by
    simp only [compile, bind_eq_ok, map_eq_ok] at h
    obtain ⟨column, hcolumn, clause, hc, rfl⟩ := h
    have hname : m.Names column.name := ⟨column, resolve_mem hcolumn, rfl⟩
    intro other hother
    cases hother
    exact Condition.clauseOn_over hname hc

theorem compileParts_over : ∀ {parts : List Filter} {clauses : List (Option Clause)},
    m.compileParts parts = .ok clauses → ∀ clause, some clause ∈ clauses → clause.Over m.Names
  | [], clauses, h => by
    simp only [compileParts, Except.ok.injEq] at h
    subst h
    exact fun _ hc => absurd hc List.not_mem_nil
  | part :: rest, clauses, h => by
    simp only [compileParts, bind_eq_ok, Except.ok.injEq] at h
    obtain ⟨condition, hc, conditions, hcs, rfl⟩ := h
    intro clause hclause
    rcases List.mem_cons.mp hclause with rfl | hclause
    · exact compile_over hc clause rfl
    · exact compileParts_over hcs clause hclause

end

theorem restriction_over {filter : Option Filter} {condition : Option Clause}
    (h : m.restriction filter = .ok condition) : ∀ clause ∈ condition, clause.Over m.Names := by
  cases filter with
  | none =>
    cases h
    nofun
  | some f =>
    simp only [restriction] at h
    split at h
    · cases h
      nofun
    · exact compile_over h

/-- What the compiler writes can be read back. -/
theorem restriction_readable (hm : m.validate = .ok ()) {filter : Option Filter}
    {condition : Option Clause} (h : m.restriction filter = .ok condition) :
    ∀ clause ∈ condition, clause.Readable := fun clause hclause =>
  (restriction_over h clause hclause).readable fun _ hname => hname.zero_not_mem hm

end Model

/-! ## Sort orders and cells -/

namespace SortKey

theorem ofChars?_subkeys {field : List Char} {key : SortKey} (h : ofChars? field = some key) :
    ∀ segment ∈ key.subkeys, isIdentifier segment = true := by
  unfold ofChars? at h
  split at h
  simp only at h
  split at h
  next hall =>
    split at h
    · cases h
    next hmap =>
      cases h
      intro segment hsegment
      have hmem := hmap ▸ List.mem_cons_of_mem _ hsegment
      obtain ⟨chars, hchars, rfl⟩ := List.mem_map.mp hmem
      rw [isIdentifier, String.toList_ofList]
      exact List.all_eq_true.mp hall chars hchars
  · cases h

theorem ofPair_subkeys {field : String} {direction : Json} {key : SortKey}
    (h : ofPair field direction = .ok key) :
    ∀ segment ∈ key.subkeys, isIdentifier segment = true := by
  unfold ofPair at h
  split at h
  · cases h
  next found hfound =>
    split at h
    next directed hdirected =>
      cases h
      have hsame : key.subkeys = found.subkeys := by
        unfold direct? at hdirected
        split at hdirected
        · split at hdirected
          · cases hdirected
            rfl
          · split at hdirected
            · cases hdirected
              rfl
            · cases hdirected
        · cases hdirected
      exact hsame ▸ ofChars?_subkeys hfound
    · cases h

/-- The paths of the keys of a sort order are identifiers, in whichever form it is given. -/
theorem ofJson_subkeys {sort : Json} {keys : List SortKey} (h : ofJson sort = .ok keys) :
    ∀ key ∈ keys, ∀ segment ∈ key.subkeys, isIdentifier segment = true := by
  intro key hkey
  unfold ofJson at h
  split at h
  · obtain ⟨field, _, hfield⟩ := mem_of_mapM h hkey
    unfold ofField at hfield
    split at hfield
    next hfound =>
      cases hfield
      exact ofChars?_subkeys hfound
    · cases hfield
  · obtain ⟨_, _, hpair⟩ := mem_of_mapM h hkey
    exact ofPair_subkeys hpair
  · obtain ⟨item, _, hitem⟩ := mem_of_mapM h hkey
    unfold ofItem at hitem
    split at hitem
    · exact ofPair_subkeys hitem
    · cases hitem
    · cases hitem
  · cases h

end SortKey

theorem Listing.sortKeys_subkeys {listing : Listing} {keys : List SortKey}
    (h : listing.sortKeys = .ok keys) :
    ∀ key ∈ keys, ∀ segment ∈ key.subkeys, isIdentifier segment = true := by
  unfold sortKeys at h
  split at h
  · cases h
    nofun
  · cases h
    nofun
  · split at h
    · cases h
      nofun
    · exact SortKey.ofJson_subkeys h

theorem pathText_chars {path : List String} (h : ∀ segment ∈ path, isIdentifier segment = true) :
    ∀ c ∈ OrderTerm.pathText path, c ≠ '\'' ∧ c ≠ '\x00' := by
  intro c hc
  rcases mem_joinWith hc with hpoint | ⟨part, hpart, hc⟩
  · rw [List.mem_singleton.mp hpoint]
    decide
  · obtain ⟨segment, hsegment, rfl⟩ := List.mem_map.mp hpart
    have hrest := isIdentifierRest_of_isIdentifierChars (h segment hsegment) c hc
    constructor <;> (rintro rfl; exact absurd hrest (by decide))

namespace Model

variable {m : Model}

/-- What an order term is written with comes from the model and from the key. -/
theorem orderTerm_parts {key : SortKey} {term : OrderTerm} (h : m.orderTerm key = .ok term) :
    m.Names term.column ∧ term.path = key.subkeys := by
  simp only [orderTerm, bind_eq_ok] at h
  obtain ⟨column, hcolumn, h⟩ := h
  split at h
  · cases h
  · cases h
    exact ⟨⟨column, resolve_mem hcolumn, rfl⟩, rfl⟩

theorem orderTerm_readable (hm : m.validate = .ok ()) {key : SortKey} {term : OrderTerm}
    (hk : ∀ segment ∈ key.subkeys, isIdentifier segment = true) (h : m.orderTerm key = .ok term) :
    term.Readable := by
  obtain ⟨hname, hpath⟩ := orderTerm_parts h
  exact ⟨hname.zero_not_mem hm, hpath ▸ pathText_chars hk⟩

/-- The cells of a record are cells of columns of the model. -/
theorem encode_names {allowId : Bool} {record : Record} {cells : List (String × SqlValue)}
    (h : m.encode allowId record = .ok cells) : ∀ cell ∈ cells, m.Names cell.1 := by
  intro cell hcell
  obtain ⟨⟨name, value⟩, _, hmember⟩ := mem_of_mapM h hcell
  simp only [encodeMember] at hmember
  split at hmember
  · split at hmember
    · split at hmember
      · cases hmember
        exact ⟨.id, List.mem_cons_self, rfl⟩
      · cases hmember
    · cases hmember
  next f hf =>
    obtain ⟨_, _, rfl⟩ := map_eq_ok.mp hmember
    exact ⟨.field f, List.mem_of_find?_eq_some hf, rfl⟩
  · cases hmember

end Model

/-! ## Statements with a filter -/

namespace Model

/-- The pieces of the statements that the operations with a filter run. -/
inductive Carries (m : Model) (filter : Option Filter) : List Piece → Prop
  | select {listing : Listing} {keys : List SortKey} {window : Option Window} {s : Select}
      (hk : listing.sortKeys = .ok keys) (h : m.select filter keys window = .ok s) :
      Carries m filter s.pieces
  | count {s : Count} (h : m.count filter = .ok s) : Carries m filter s.pieces
  | exists {s : Exists} (h : m.exists? filter = .ok s) : Carries m filter s.pieces
  | update {record : Record} {cells : List (String × SqlValue)} {s : Update}
      (hc : m.encode false record = .ok cells) (h : m.update cells filter = .ok s) :
      Carries m filter s.pieces
  | delete {s : Delete} (h : m.delete filter = .ok s) : Carries m filter s.pieces

/-- Every statement with a filter says the clause that the filter is compiled to. -/
theorem Carries.conditionOf {m : Model} (hm : m.validate = .ok ()) {filter : Option Filter}
    {pieces : List Piece} (h : m.Carries filter pieces) :
    ∃ condition, m.restriction filter = .ok condition ∧
      RecordStore.conditionOf (Piece.text pieces) (Piece.params pieces) = some condition := by
  have hz := zero_not_mem_of_isIdentifier (validate_isIdentifier hm).1
  cases h with
  | select hk h =>
    simp only [Model.select, bind_eq_ok, Except.ok.injEq] at h
    obtain ⟨condition, hr, order, ho, rfl⟩ := h
    refine ⟨condition, hr, Select.conditionOf_pieces hz ?_ ?_ (restriction_readable hm hr)⟩
    · intro name hname
      exact Names.zero_not_mem hm (List.mem_map.mp hname)
    · intro term hterm
      obtain ⟨key, hkey, hterm⟩ := mem_of_mapM ho hterm
      exact orderTerm_readable hm (Listing.sortKeys_subkeys hk key hkey) hterm
  | count h =>
    simp only [Model.count, bind_eq_ok, Except.ok.injEq] at h
    obtain ⟨condition, hr, rfl⟩ := h
    exact ⟨condition, hr, Count.conditionOf_pieces hz (restriction_readable hm hr)⟩
  | «exists» h =>
    simp only [exists?, bind_eq_ok, Except.ok.injEq] at h
    obtain ⟨condition, hr, rfl⟩ := h
    exact ⟨condition, hr, Exists.conditionOf_pieces hz (restriction_readable hm hr)⟩
  | update hc h =>
    unfold Model.update at h
    split at h
    · cases h
    · simp only [bind_eq_ok, mapError_eq_ok, Except.ok.injEq] at h
      obtain ⟨condition, hr, rfl⟩ := h
      exact ⟨condition, hr, Update.conditionOf_pieces hz
        (fun cell hcell => (encode_names hc cell hcell).zero_not_mem hm)
        (restriction_readable hm hr)⟩
  | delete h =>
    simp only [Model.delete, bind_eq_ok, Except.ok.injEq] at h
    obtain ⟨condition, hr, rfl⟩ := h
    exact ⟨condition, hr, Delete.conditionOf_pieces hz (restriction_readable hm hr)⟩

/-- A statement that carries a filter, as its text is read together with its parameters, selects
exactly the rows of the table of the model that the filter holds of. -/
theorem textSelects_eq_meaning {m : Model} (hm : m.validate = .ok ()) {f : Filter}
    {pieces : List Piece} (hs : m.Carries (some f) pieces) {t : Table} (ht : m.OwnTable t)
    {row : Row} (hrow : row ∈ t.rows) :
    textSelects (Piece.text pieces) (Piece.params pieces) t row = some (f.meaning m row) := by
  obtain ⟨condition, hr, hread⟩ := hs.conditionOf hm
  rw [textSelects, hread, Option.map_some, restriction_meaning ht hrow hr]

end Model

/-- A model with a column that may be empty. -/
def personModel : Model := ⟨"Person", none, [.plain "name" .text, ⟨"age", .int, true, false, none⟩]⟩

/-- The table of that model with one record, whose second cell is empty. -/
def personTable : Table :=
  ⟨"person", [⟨"name", .text, true, false, none⟩, ⟨"age", .integer, false, false, none⟩],
    [⟨1, [.text "Ann", .null]⟩], 1⟩

theorem personTable_own : personModel.OwnTable personTable := by
  have hcreated : personModel.OwnTable ⟨"person", personTable.columns, [], 0⟩ :=
    .created (s := ⟨"person", personTable.columns⟩) rfl rfl
  exact .inserted hcreated (rfl : Table.insert _ "person" [("name", .text "Ann")] = .ok (_, 1))

/-- An empty cell is apart from all items of a list, and the disjunction with a part that restricts
nothing is not written, nor are its parameters. -/
theorem textSelects_person :
    textSelects
        "DELETE FROM \"person\" WHERE (\"name\" = ? OR (\"age\" NOT IN (?) OR \"age\" IS NULL))"
        [.text "Bob", .integer 3] personTable ⟨1, [.text "Ann", .null]⟩ = some true := by
  have hs : personModel.Carries (some (.any [.condition ⟨"name", .equal, .string "Bob"⟩,
      .all [.condition ⟨"age", .noneOf, .array [.ofInt64 3]⟩,
        .any [.all [], .condition ⟨"age", .equal, .ofInt64 7⟩]]])) _ := .delete rfl
  exact Model.textSelects_eq_meaning rfl hs personTable_own List.mem_cons_self

end RecordStore
