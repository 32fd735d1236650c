import RecordStore.Proofs.Query.Unrestricted
import Mathlib.Tactic.SplitIfs

/-!
# Placeholders and parameters

Every placeholder in the text of a statement has its parameter, and the parameters stand in the order
of the placeholders: first the cells that are written, then the operands of the conditions in the order
of the tree, then the window. Which conditions of a filter are written is said on the tree alone. A
disjunction with a part that restricts nothing is dropped, and its operands are dropped with it.
-/

namespace RecordStore

open Piece

/-! ## The conditions that are written -/

/-- The operands of a condition on a column. Nothing is compared with `null`, neither alone nor in a
list. -/
def Condition.operands (c : Condition) (column : Column) : List SqlValue :=
  match c.comparison, c.value with
  | .oneOf, .array items | .noneOf, .array items => column.operands items
  | _, .null => []
  | _, value => [column.operand value]

namespace Filter

mutual

/-- The conditions of a filter in the order of the tree, without those of the disjunctions that are
dropped. -/
def written : Filter → List Condition
  | .all parts => writtenParts parts
  | .any parts => if anyUnrestricted parts then [] else writtenParts parts
  | .condition c => [c]

def writtenParts : List Filter → List Condition
  | [] => []
  | part :: rest => written part ++ writtenParts rest

end

mutual

theorem written_of_isUnrestricted : ∀ {f : Filter}, f.isUnrestricted = true → f.written = []
  | .all parts, h => by
    rw [written]
    exact writtenParts_of_allUnrestricted h
  | .any [], _ => rfl
  | .any (part :: rest), h => by
    rw [isUnrestricted, List.isEmpty_cons, Bool.false_or] at h
    rw [written, if_pos h]
  | .condition c, h => by cases h

theorem writtenParts_of_allUnrestricted : ∀ {parts : List Filter},
    allUnrestricted parts = true → writtenParts parts = []
  | [], _ => rfl
  | part :: rest, h => by
    rw [allUnrestricted, Bool.and_eq_true] at h
    rw [writtenParts, written_of_isUnrestricted h.1, writtenParts_of_allUnrestricted h.2,
      List.append_nil]

end

end Filter

/-- The operands of a condition of a filter on a model. -/
def Model.operands (m : Model) (c : Condition) : List SqlValue :=
  match m.column? c.column with
  | some column => c.operands column
  | none => []

namespace Request

/-- The counts of the window of a request, how many rows to show before how many to skip. -/
def counts : Request → List SqlValue
  | .select _ _ (some window) => [.integer (clampCount window.limit), .integer (clampCount window.offset)]
  | _ => []

/-- The operands of the filter of a request. -/
def operands (m : Model) (r : Request) : List SqlValue :=
  (r.filter.elim [] Filter.written).flatMap m.operands

end Request

/-! ## The parameters of pieces -/

namespace Piece

theorem params_operandPieces (operands : List SqlValue) :
    params (Clause.operandPieces operands) = operands := by
  have hvalues : params (commas (operands.map fun value => [.param value])) = operands := by
    rw [commas, params_joinWith rfl, List.flatMap_map]
    exact List.flatMap_singleton' operands
  have hclose : params [.ofString ")"] = [] := rfl
  rw [Clause.operandPieces, ← List.singleton_append, params_append, params_append, hvalues, hclose,
    List.append_nil]
  rfl

end Piece

namespace Clause

theorem params_oneOf (column : String) (operands : List SqlValue) :
    params (oneOf column operands).pieces = operands := by
  rw [pieces, params_append, params_operandPieces]
  rfl

theorem params_noneOf (column : String) (operands : List SqlValue) :
    params (noneOf column operands).pieces = operands := by
  rw [pieces, params_append, params_operandPieces]
  rfl

/-- Parts in parentheses. -/
theorem params_group {s : String} (parts : List Clause) :
    params (.ofString "(" :: (joinWith [.ofString s] (partPieces parts) ++ [.ofString ")"])) =
      parts.flatMap fun part => params part.pieces := by
  have hclose : params [.ofString ")"] = [] := rfl
  rw [← List.singleton_append, params_append, params_append, params_joinWith rfl, hclose,
    partPieces_eq_map, List.flatMap_map, List.append_nil]
  rfl

theorem params_all (parts : List Clause) :
    params (all parts).pieces = parts.flatMap fun part => params part.pieces := by
  rw [pieces, params_group]

theorem params_any (parts : List Clause) :
    params (any parts).pieces = parts.flatMap fun part => params part.pieces := by
  rw [pieces, params_group]

/-- Joining conditions keeps their parameters in order. -/
theorem params_joined {join : List Clause → Clause}
    (hjoin : ∀ parts, params (join parts).pieces = parts.flatMap fun part => params part.pieces)
    (parts : List (Option Clause)) :
    params (whereLine (joined join (parts.filterMap id))) =
      parts.flatMap fun part => params (whereLine part) := by
  have hwhere : ∀ clause : Clause, params (whereLine (some clause)) = params clause.pieces :=
    fun _ => rfl
  have hparts : (parts.filterMap id).flatMap (fun part => params part.pieces) =
      parts.flatMap fun part => params (whereLine part) := by
    induction parts with
    | nil => rfl
    | cons part rest ih =>
      cases part with
      | none => exact ih
      | some clause => exact congrArg (params clause.pieces ++ ·) ih
  rw [← hparts]
  match parts.filterMap id with
  | [] => rfl
  | [clause] => simp [joined, hwhere]
  | first :: next :: more => exact hjoin _

end Clause

/-! ## The parameters of conditions -/

namespace Condition

variable {c : Condition} {column : Column} {clause : Clause}

/-- A condition that is no list has one operand, or none if it is `null`. -/
theorem operands_eq (h : c.comparison.expectsList = false) :
    c.operands column = if c.value.isNull then [] else [column.operand c.value] := by
  obtain ⟨name, comparison, value⟩ := c
  cases comparison with
  | oneOf | noneOf => cases h
  | equal | notEqual | greater | atLeast | less | atMost => cases value <;> rfl

theorem params_membership (negated : Bool) (items : List Json) :
    params (membership column negated items).pieces = column.operands items := by
  rw [membership_eq]
  split
  next hnil =>
    rw [hnil]
    cases negated <;> rfl
  split
  next hitems =>
    rw [hitems]
    cases negated <;> rfl
  next =>
    have hnull : params (Clause.isNull column.name).pieces = [] := rfl
    have hnotNull : params (Clause.isNotNull column.name).pieces = [] := rfl
    split <;> simp [Clause.params_all, Clause.params_any, Clause.params_oneOf, Clause.params_noneOf,
      hnull, hnotNull]

theorem params_relate {relation : Relation} (h : c.relate column relation = .ok clause)
    (hc : c.comparison.expectsList = false) : params clause.pieces = c.operands column := by
  unfold relate at h
  split at h
  · cases h
  next hv =>
    cases h
    rw [operands_eq hc, if_neg hv]
    rfl

/-- The parameters of a condition are its operands. -/
theorem params_clauseOn (h : c.clauseOn column = .ok clause) :
    params clause.pieces = c.operands column := by
  unfold clauseOn at h
  split at h
  case h_1 hc =>
    cases h
    rw [operands_eq (by rw [hc]; rfl)]
    split <;> rfl
  case h_2 hc =>
    cases h
    rw [operands_eq (by rw [hc]; rfl)]
    split <;> rfl
  case h_3 hc | h_4 hc | h_5 hc | h_6 hc => exact params_relate h (by rw [hc]; rfl)
  case h_7 hc | h_8 hc =>
    split at h
    next items hv =>
      cases h
      rw [params_membership, operands, hc, hv]
    · cases h

end Condition

namespace Model

variable {m : Model}

mutual

/-- The parameters of a compiled filter are the operands of the conditions that are written. The
induction goes along the tree; where a disjunction is dropped, so are its parameters. -/
theorem params_of_compile : ∀ {f : Filter} {condition : Option Clause},
    m.compile f = .ok condition → params (whereLine condition) = f.written.flatMap m.operands
  | .all parts, condition, h => by
    simp only [compile, bind_eq_ok, Except.ok.injEq] at h
    obtain ⟨clauses, hc, rfl⟩ := h
    rw [Clause.params_joined Clause.params_all, Filter.written, params_of_compileParts hc]
  | .any parts, condition, h => by
    simp only [compile, bind_eq_ok, Except.ok.injEq] at h
    obtain ⟨clauses, hc, rfl⟩ := h
    have hany := congrArg (List.any · id) (map_isNone_of_compileParts hc)
    simp only [List.any_map, Function.id_comp, ← Filter.anyUnrestricted_eq_any] at hany
    rw [Filter.written, hany]
    split
    · rfl
    · rw [Clause.params_joined Clause.params_any, params_of_compileParts hc]
  | .condition c, condition, h => by
    simp only [compile, bind_eq_ok, map_eq_ok] at h
    obtain ⟨column, hcolumn, clause, hclause, rfl⟩ := h
    have hoperands : m.operands c = c.operands column := by
      rw [operands, resolve_eq_ok.mp hcolumn]
    rw [Filter.written, List.flatMap_singleton, hoperands, ← Condition.params_clauseOn hclause]
    rfl

theorem params_of_compileParts : ∀ {parts : List Filter} {clauses : List (Option Clause)},
    m.compileParts parts = .ok clauses →
      clauses.flatMap (fun part => params (whereLine part)) =
        (Filter.writtenParts parts).flatMap m.operands
  | [], clauses, h => by
    simp only [compileParts, Except.ok.injEq] at h
    rw [← h]
    rfl
  | part :: rest, clauses, h => by
    simp only [compileParts, bind_eq_ok, Except.ok.injEq] at h
    obtain ⟨clause, hc, clauses, hcs, rfl⟩ := h
    rw [List.flatMap_cons, params_of_compile hc, params_of_compileParts hcs, Filter.writtenParts,
      List.flatMap_append]

end

theorem params_of_restriction {r : Request} {condition : Option Clause}
    (h : m.restriction r.filter = .ok condition) :
    params (whereLine condition) = r.operands m := by
  rw [Request.operands]
  cases hfilter : r.filter with
  | none =>
    rw [hfilter] at h
    cases h
    rfl
  | some f =>
    simp only [hfilter, restriction] at h
    split at h
    next hf =>
      cases h
      rw [Option.elim_some, Filter.written_of_isUnrestricted hf]
      rfl
    next => exact params_of_compile h

end Model

/-! ## The parameters of statements -/

theorem Piece.params_cells {cells : List (String × SqlValue)} :
    params (commas (cells.map fun cell => [.name cell.1, .ofString " = ", .param cell.2])) =
      cells.map Prod.snd := by
  rw [commas, params_joinWith rfl, List.flatMap_map]
  exact (List.map_eq_flatMap).symm

theorem OrderTerm.params_pieces (t : OrderTerm) : params t.pieces = [] := by
  obtain ⟨column, path, descending⟩ := t
  cases path <;> rfl

theorem OrderTerm.params_orderLine (order : List OrderTerm) : params (orderLine order) = [] := by
  cases order with
  | nil => rfl
  | cons first rest => exact params_commas_of_plain OrderTerm.params_pieces (first :: rest)

namespace Request

variable {m : Model} {r : Request}

theorem params_front (m : Model) (r : Request) : params (r.front m) = r.cells.map Prod.snd := by
  cases r with
  | select filter keys window =>
    have hselect : params [.ofString "SELECT "] = [] := rfl
    have hfrom : params [.ofString " FROM ", .name m.tableName] = [] := rfl
    have hnames : params (commas ((m.columns.map Column.name).map fun name => [.name name])) = [] :=
      params_commas_of_plain (fun _ => rfl) _
    rw [front, Select.front, ← List.singleton_append, params_append, params_append, hselect, hnames,
      hfrom]
    rfl
  | count filter | «exists» filter | delete filter => rfl
  | insert cells =>
    have hvalues : params [.ofString ") VALUES "] = [] := rfl
    by_cases hnil : cells = []
    · rw [hnil]
      rfl
    · have htable : params [.ofString "INSERT INTO ", .name m.tableName, .ofString " ("] = [] := rfl
      have hnames : params (commas (cells.map fun cell => [.name cell.1])) = [] :=
        params_commas_of_plain (fun _ => rfl) _
      rw [front, Model.insert, Insert.pieces_of_ne_nil _ hnil, params_append, params_append, htable,
        hnames, ← List.singleton_append, params_append, hvalues, params_operandPieces]
      rfl
  | update cells filter =>
    have htable : params [.ofString "UPDATE ", .name m.tableName, .ofString " SET "] = [] := rfl
    rw [front, Update.front, params_append, htable, params_cells]
    rfl

theorem params_back {tail : List Piece} (h : r.back m = .ok tail) : params tail = r.counts := by
  cases r with
  | select filter keys window =>
    simp only [back, bind_eq_ok, Except.ok.injEq] at h
    obtain ⟨order, _, rfl⟩ := h
    rw [params_append, OrderTerm.params_orderLine]
    cases window <;> rfl
  | update cells filter =>
    simp only [back] at h
    split at h
    · cases h
    · cases h
      rfl
  | count filter | «exists» filter | insert cells | delete filter =>
    cases h
    rfl

end Request

/-! ## The marks in the text -/

/-- The pieces of a statement hold a question mark exactly if they are parameters. -/
theorem Model.Part.count_mark {m : Model} {paths : List (List String)} (hm : m.validate = .ok ())
    (hpaths : ∀ path ∈ paths, ∀ segment ∈ path, isIdentifier segment = true) {piece : Piece}
    (h : m.Part paths piece) : piece.chars.count '?' = piece.value?.toList.length := by
  have hmark : ∀ {name : String}, isIdentifier name = true → '?' ∉ name.toList := fun hname hmem =>
    absurd (isIdentifierRest_of_isIdentifierChars hname '?' hmem) (by decide)
  have hname : ∀ {name : String}, isIdentifier name = true →
      (quotedName name).count '?' = 0 := by
    intro name hname
    have hquote : '"' ∉ name.toList := fun hmem =>
      absurd (isIdentifierRest_of_isIdentifierChars hname '"' hmem) (by decide)
    rw [quotedName, quoted, OrderTerm.doubleQuotes_of_not_mem hquote, List.count_eq_zero]
    simp [hmark hname]
  cases h with
  | @word s h =>
    have hwords : ∀ s ∈ statementWords, s ≠ "?" → s.toList.count '?' = 0 := by decide
    exact hwords s h.1 h.2
  | param value => rfl
  | table => exact hname (validate_isIdentifier hm).1
  | column hn => exact hname (hn.isIdentifier hm)
  | @path path hp hne =>
    have hpath : '?' ∉ joinWith ['.'] (path.map String.toList) := by
      intro hmem
      rcases mem_joinWith hmem with hpoint | ⟨part, hpart, hmem⟩
      · simp at hpoint
      · obtain ⟨segment, hsegment, rfl⟩ := List.mem_map.mp hpart
        exact hmark (hpaths path hp segment hsegment) hmem
    refine List.count_eq_zero.mpr ?_
    simp [Piece.chars, hpath]

theorem Model.count_marks {m : Model} (hm : m.validate = .ok ()) {r : Request} (hr : r.Checked m)
    {pieces : List Piece} (h : m.write r = .ok pieces) :
    (text pieces).toList.count '?' = (params pieces).length := by
  have hparts := parts_write hr h
  rw [text, String.toList_ofList, params]
  clear h
  induction pieces with
  | nil => rfl
  | cons piece rest ih =>
    have hpiece := (hparts piece List.mem_cons_self).count_mark hm (checked_paths hr)
    have hrest := ih fun other hother => hparts other (List.mem_cons_of_mem _ hother)
    rw [List.flatMap_cons, List.count_append, hpiece, hrest]
    cases hvalue : piece.value? <;> simp [hvalue, Nat.add_comm]

/-! ## Parameters among the tokens -/

/-- The parameter that a token is, if it is one. -/
def Token.value? : Token → Option SqlValue
  | .value v => some v
  | _ => none

namespace Scanner

/-- The parameters in the order of their placeholders, those bound already before those that are left. -/
def supply (s : Scanner) : List SqlValue := s.tokens.reverse.filterMap Token.value? ++ s.values

variable {s s' : Scanner} {c : Char}

theorem supply_push {t : Token} (h : t.value? = none) (tokens : List Token) (values : List SqlValue)
    (pending : Pending) : supply ⟨t :: tokens, values, pending⟩ = supply ⟨tokens, values, pending⟩ := by
  simp [supply, h]

theorem value?_ofWord (chars : List Char) : (Token.ofWord chars).value? = none := by
  unfold Token.ofWord
  split <;> rfl

theorem value?_ofQuoted (quote : Quote) (chars : List Char) :
    (Token.ofQuoted quote chars).value? = none := by
  cases quote <;> rfl

theorem supply_of_settle (h : s.settle = some s') : s'.supply = s.supply := by
  obtain ⟨tokens, values, pending⟩ := s
  cases pending with
  | nothing =>
    cases h
    rfl
  | word chars =>
    cases h
    exact supply_push (value?_ofWord chars) tokens values _
  | sign d =>
    cases h
    exact supply_push rfl tokens values _
  | quoted quote chars => cases h
  | closing quote chars =>
    cases h
    exact supply_push (value?_ofQuoted quote chars) tokens values _

theorem supply_of_extend (h : s.extend c = some s') : s'.supply = s.supply := by
  obtain ⟨tokens, values, pending⟩ := s
  cases pending with
  | nothing => cases h
  | word chars =>
    cases h
    rfl
  | sign d =>
    cases h
    exact supply_push rfl tokens values _
  | quoted quote chars =>
    simp only [extend] at h
    split at h
    · cases h
    · split at h <;> (cases h; rfl)
  | closing quote chars =>
    cases h
    rfl

theorem supply_of_start (h : s.start c = some s') : s'.supply = s.supply := by
  obtain ⟨tokens, values, pending⟩ := s
  have hopened : ∀ opened : Pending, some ⟨tokens, values, opened⟩ = some s' →
      s'.supply = supply ⟨tokens, values, pending⟩ := by
    intro opened hopened
    cases hopened
    rfl
  unfold start at h
  split_ifs at h
  · exact hopened _ h
  · exact hopened _ h
  · exact hopened _ h
  · exact hopened _ h
  · exact hopened _ h
  · cases h
    exact supply_push rfl tokens values pending
  · cases values with
    | nil => cases h
    | cons value values =>
      cases h
      simp [supply, Token.value?]

theorem supply_of_step (h : s.step c = some s') : s'.supply = s.supply := by
  unfold step at h
  split at h
  · exact supply_of_extend h
  · obtain ⟨settled, hsettle, hstart⟩ := Option.bind_eq_some_iff.mp h
    rw [supply_of_start hstart, supply_of_settle hsettle]

/-- No parameter is lost, bound twice or out of order while a text is read. -/
theorem supply_of_scan {chars : List Char} (h : s.scan chars = some s') : s'.supply = s.supply := by
  induction chars generalizing s with
  | nil =>
    cases h
    rfl
  | cons c rest ih =>
    obtain ⟨next, hstep, hrest⟩ := Option.bind_eq_some_iff.mp (scan_cons s c rest ▸ h)
    rw [ih hrest, supply_of_step hstep]

end Scanner

/-- Reading a text binds every parameter, in the order of the placeholders. -/
theorem values_of_tokensOf {text : String} {values : List SqlValue} {ts : List Token}
    (h : tokensOf text values = some ts) : ts.filterMap Token.value? = values := by
  simp only [tokensOf, Option.bind_eq_bind, Option.bind_eq_some_iff] at h
  obtain ⟨s, hscan, settled, hsettle, hend⟩ := h
  split at hend
  next hnil =>
    cases hend
    have hsupply := (Scanner.supply_of_settle hsettle).trans (Scanner.supply_of_scan hscan)
    simpa [Scanner.supply, hnil] using hsupply
  · cases hend

theorem Piece.ReadAs.values {ps : List Piece} {ts : List Token} (h : ReadAs ps ts) :
    ts.filterMap Token.value? = params ps := values_of_tokensOf (tokensOf_pieces h)

/-- The name that a token is, if it is one. -/
def Token.name? : Token → Option String
  | .name s => some s
  | _ => none

theorem Clause.names_operandTokens (operands : List SqlValue) :
    (operandTokens operands).filterMap Token.name? = [] := by
  have hvalues : (joinWith [.sign [',']] (operands.map fun v => [Token.value v])).filterMap
      Token.name? = [] := by
    rw [filterMap_joinWith rfl, List.flatMap_map]
    exact List.flatMap_eq_nil_iff.mpr fun _ _ => rfl
  rw [operandTokens, List.filterMap_cons_none rfl, List.filterMap_append, hvalues]
  rfl

/-- The columns of the cells that are written are listed in the order of the cells. -/
theorem Request.names_frontTokens {m : Model} {r : Request} (h : r.cells ≠ []) :
    (r.frontTokens m).filterMap Token.name? = m.tableName :: r.cells.map Prod.fst := by
  have hlisted : ∀ (write : String × SqlValue → List Token) (more : List (String × SqlValue)),
      (∀ cell, (write cell).filterMap Token.name? = [cell.1]) →
      (joinWith [.sign [',']] (more.map write)).filterMap Token.name? = more.map Prod.fst := by
    intro write more hwrite
    rw [filterMap_joinWith rfl, List.flatMap_map, List.map_eq_flatMap]
    simp only [hwrite]
  cases r with
  | insert cells =>
    cases cells with
    | nil => exact absurd rfl h
    | cons first rest =>
      have hnames := hlisted (fun cell => [.name cell.1]) (first :: rest) fun _ => rfl
      simp only [frontTokens, Insert.tokens, List.filterMap_append, hnames, List.filterMap_cons,
        Token.name?, Clause.names_operandTokens, List.append_nil, cells, List.cons_append,
        List.nil_append]
  | update cells filter =>
    have hnames := hlisted (fun cell => [.name cell.1, .sign ['='], .value cell.2]) cells
      fun _ => rfl
    rw [frontTokens, Update.frontTokens, List.filterMap_append, hnames]
    rfl
  | select | count | «exists» | delete => exact absurd rfl h

namespace Model

/-- The text of a statement has as many question marks as the statement has parameters. Read from left
to right, the parameters are first the cells that are written, in the order in which their columns are
listed, then the operands of the conditions in the order of the tree, then the counts of the window. -/
theorem placeholders_bound {m : Model} (hm : m.validate = .ok ()) {r : Request} (hr : r.Checked m)
    {pieces : List Piece} (h : m.write r = .ok pieces) :
    (text pieces).toList.count '?' = (params pieces).length ∧
    params pieces = r.cells.map Prod.snd ++ r.operands m ++ r.counts ∧
    ∃ condition us, m.restriction r.filter = .ok condition ∧ r.backTokens m = .ok us ∧
      tokensOf (text pieces) (params pieces) =
        some (r.frontTokens m ++ whereTokens condition ++ us) ∧
      (r.frontTokens m).filterMap Token.value? = r.cells.map Prod.snd ∧
      (r.cells ≠ [] →
        (r.frontTokens m).filterMap Token.name? = m.tableName :: r.cells.map Prod.fst) ∧
      (whereTokens condition).filterMap Token.value? = r.operands m ∧
      us.filterMap Token.value? = r.counts := by
  have hmarks := count_marks hm hr h
  obtain ⟨condition, tail, hc, hback, rfl⟩ := write_eq_ok_iff.mp h
  obtain ⟨us, hus, htail⟩ := hr.trails hm hback
  have hfront := hr.leads hm
  have hread := restriction_readable hm hc
  have hfrontValues := Request.params_front m r
  have hwhereValues := params_of_restriction hc
  have hbackValues := Request.params_back hback
  refine ⟨hmarks, ?_, condition, us, hc, hus, tokensOf_pieces (readAs_whereLine hfront htail hread),
    hfront.reads.values.trans hfrontValues, Request.names_frontTokens, ?_,
    htail.reads.values.trans hbackValues⟩
  · rw [params_append, params_append, hfrontValues, hwhereValues, hbackValues]
  · rw [← hwhereValues]
    cases condition with
    | none => rfl
    | some clause => exact (hread clause rfl).readAs.values

/-- A change whose filter has a disjunction that is dropped, a list with `null`, and a comparison with
`null`. -/
def personsChange : Request :=
  .update [("name", .text "Ann?"), ("age", .null)] (some (.all
    [.any [.condition ⟨"age", .less, .ofInt64 3⟩, .all []],
      .condition ⟨"name", .noneOf, .array [.string "?", .null, .string "Bob"]⟩,
      .any [.condition ⟨"age", .notEqual, .null⟩, .condition ⟨"age", .atLeast, .ofInt64 30⟩]]))

/-- Question marks in values stay out of the text. Nothing is bound for the disjunction that is dropped,
nor for `null`. -/
theorem placeholders_of_persons : ∃ pieces, personModel.write personsChange = .ok pieces ∧
    text pieces = "UPDATE \"person\" SET \"name\" = ?, \"age\" = ? WHERE ((\"name\" NOT IN (?, ?)" ++
      " AND \"name\" IS NOT NULL) AND (\"age\" IS NOT NULL OR \"age\" >= ?))" ∧
    (text pieces).toList.count '?' = (params pieces).length ∧
    params pieces = [.text "Ann?", .null, .text "?", .text "Bob", .integer 30] := by
  have hcells : personModel.encode false [("name", .string "Ann?"), ("age", .null)] =
    .ok [("name", .text "Ann?"), ("age", .null)] := rfl
  have hchecked : personsChange.Checked personModel := .update hcells
  obtain ⟨hcount, hvalues, _⟩ := placeholders_bound (rfl : personModel.validate = .ok ()) hchecked rfl
  exact ⟨_, rfl, by decide +kernel, hcount, hvalues⟩

end Model

end RecordStore
