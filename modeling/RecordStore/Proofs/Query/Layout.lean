import RecordStore.Proofs.Query.Requests

/-!
# The layout of statements

The statement of a request is written in three parts: what stands before its condition, the condition
behind the word `WHERE`, and what stands after it. Only the part in the middle depends on the filter.
The text of a checked request is read part by part as well: `Request.tokens` says which tokens the
text consists of from left to right, each placeholder being read as the parameter that is bound to it.
-/

namespace RecordStore

open Piece

namespace Request

/-- The filter of a request. -/
def filter : Request → Option Filter
  | .select filter _ _ | .count filter | .exists filter | .update _ filter | .delete filter => filter
  | .insert _ => none

/-- The cells that a request writes. -/
def cells : Request → List (String × SqlValue)
  | .insert cells | .update cells _ => cells
  | .select _ _ _ | .count _ | .exists _ | .delete _ => []

/-- The request for all records. -/
def unfiltered : Request → Request
  | .select _ keys window => .select none keys window
  | .count _ => .count none
  | .exists _ => .exists none
  | .insert cells => .insert cells
  | .update cells _ => .update cells none
  | .delete _ => .delete none

/-- What is written before the condition. -/
def front (m : Model) : Request → List Piece
  | .select _ _ _ => Select.front m.tableName (m.columns.map Column.name)
  | .count _ => Count.front m.tableName
  | .exists _ => Exists.front m.tableName
  | .insert cells => (m.insert cells).pieces
  | .update cells _ => Update.front m.tableName cells
  | .delete _ => Delete.front m.tableName

/-- What is written after the condition, unless the request is refused apart from its filter. -/
def back (m : Model) : Request → Except StoreError (List Piece)
  | .select _ keys window => do
    let order ← (keys.mapM m.orderTerm).mapError .query
    .ok (orderLine order ++ windowLine (window.map Window.toRows))
  | .exists _ => .ok [.ofString ")"]
  | .update cells _ => if cells = [] then .error (.validation .noChanges) else .ok []
  | .count _ | .insert _ | .delete _ => .ok []

theorem filter_unfiltered (r : Request) : r.unfiltered.filter = none := by
  cases r <;> rfl

theorem front_unfiltered (m : Model) (r : Request) : r.unfiltered.front m = r.front m := by
  cases r <;> rfl

theorem back_unfiltered (m : Model) (r : Request) : r.unfiltered.back m = r.back m := by
  cases r <;> rfl

end Request

namespace Model

variable {m : Model} {r : Request} {condition : Option Clause} {pieces : List Piece}

/-- The statement of a request whose filter is compiled to a condition. -/
theorem write_of_restriction (h : m.restriction r.filter = .ok condition) :
    m.write r = (r.back m).map fun tail => r.front m ++ whereLine condition ++ tail := by
  cases r with
  | select filter keys window =>
    have hf : m.restriction filter = .ok condition := h
    simp only [write, select, hf, ok_bind, Request.back, Request.front]
    cases keys.mapM m.orderTerm with
    | error e => rfl
    | ok order => exact congrArg Except.ok (Select.pieces_eq _)
  | count filter =>
    have hf : m.restriction filter = .ok condition := h
    simp only [write, count, hf]
    exact congrArg Except.ok (List.append_nil _).symm
  | «exists» filter =>
    have hf : m.restriction filter = .ok condition := h
    simp only [write, exists?, hf]
    rfl
  | insert cells =>
    cases h
    simp only [write, Request.back, map_ok, whereLine, List.append_nil, Request.front]
  | update cells filter =>
    have hf : m.restriction filter = .ok condition := h
    simp only [write, update, hf, Request.back]
    split
    · rfl
    · exact congrArg Except.ok (List.append_nil _).symm
  | delete filter =>
    have hf : m.restriction filter = .ok condition := h
    simp only [write, delete, hf]
    exact congrArg Except.ok (List.append_nil _).symm

/-- The statement of a request for all records has no condition. -/
theorem write_unfiltered (m : Model) (r : Request) :
    m.write r.unfiltered = (r.back m).map fun tail => r.front m ++ tail := by
  have hr : m.restriction r.unfiltered.filter = .ok none := by
    rw [r.filter_unfiltered]
    rfl
  rw [write_of_restriction hr, r.front_unfiltered, r.back_unfiltered]
  simp only [whereLine, List.append_nil]

/-- Where a request has a statement, its filter is compiled to a condition. -/
theorem exists_restriction_of_write (h : m.write r = .ok pieces) :
    ∃ condition, m.restriction r.filter = .ok condition := by
  cases r with
  | select filter keys window =>
    simp only [write, mapError_eq_ok, map_eq_ok, select, bind_eq_ok] at h
    obtain ⟨_, ⟨condition, hr, _⟩, _⟩ := h
    exact ⟨condition, hr⟩
  | count filter =>
    simp only [write, mapError_eq_ok, map_eq_ok, count, bind_eq_ok] at h
    obtain ⟨_, ⟨condition, hr, _⟩, _⟩ := h
    exact ⟨condition, hr⟩
  | «exists» filter =>
    simp only [write, mapError_eq_ok, map_eq_ok, exists?, bind_eq_ok] at h
    obtain ⟨_, ⟨condition, hr, _⟩, _⟩ := h
    exact ⟨condition, hr⟩
  | insert cells => exact ⟨none, rfl⟩
  | update cells filter =>
    simp only [write, map_eq_ok, update] at h
    obtain ⟨s, hs, _⟩ := h
    split at hs
    · cases hs
    · simp only [bind_eq_ok, mapError_eq_ok] at hs
      obtain ⟨condition, hr, _⟩ := hs
      exact ⟨condition, hr⟩
  | delete filter =>
    simp only [write, mapError_eq_ok, map_eq_ok, delete, bind_eq_ok] at h
    obtain ⟨_, ⟨condition, hr, _⟩, _⟩ := h
    exact ⟨condition, hr⟩

/-- What a statement consists of. -/
theorem write_eq_ok_iff : m.write r = .ok pieces ↔ ∃ condition tail,
    m.restriction r.filter = .ok condition ∧ r.back m = .ok tail ∧
      pieces = r.front m ++ whereLine condition ++ tail := by
  constructor
  · intro h
    obtain ⟨condition, hr⟩ := exists_restriction_of_write h
    rw [write_of_restriction hr] at h
    obtain ⟨tail, htail, rfl⟩ := map_eq_ok.mp h
    exact ⟨condition, tail, hr, htail, rfl⟩
  · rintro ⟨condition, tail, hr, htail, rfl⟩
    rw [write_of_restriction hr, htail, map_ok]

end Model

/-! ## The tokens of a statement -/

namespace Insert

def tokens (table : String) : List (String × SqlValue) → List Token
  | [] =>
    [.word "INSERT".toList, .word "INTO".toList, .name table, .word "DEFAULT".toList,
      .word "VALUES".toList]
  | cells =>
    [.word "INSERT".toList, .word "INTO".toList, .name table, .sign ['(']] ++
      joinWith [.sign [',']] (cells.map fun cell => [.name cell.1]) ++
      .sign [')'] :: .word "VALUES".toList :: Clause.operandTokens (cells.map Prod.snd)

theorem leads {table : String} {cells : List (String × SqlValue)} (hz : '\x00' ∉ table.toList)
    (hcells : ∀ cell ∈ cells, '\x00' ∉ cell.1.toList) :
    Leads (pieces ⟨table, cells⟩) (tokens table cells) := by
  have hinsert : ReadThrough [.ofString "INSERT INTO "] [.word "INSERT".toList, .word "INTO".toList] :=
    fun _ _ => rfl
  have htable := (leads_table hinsert (by simp) hz).reads
  cases cells with
  | nil =>
    have hdefault : ReadAs [.ofString " DEFAULT VALUES"]
      [.word "DEFAULT".toList, .word "VALUES".toList] := fun _ _ => rfl
    exact ⟨htable.append ⟨' ', _, rfl, rfl⟩ hdefault, by simp [tokens]⟩
  | cons first rest =>
    have hopen : ReadThrough [.ofString " ("] [.sign ['(']] := fun _ _ => rfl
    have hvalues : ReadThrough [.ofString ") VALUES "] [.sign [')'], .word "VALUES".toList] :=
      fun _ _ => rfl
    have hnames := readAs_commas fun cell hcell => readAs_name (hcells cell hcell)
    have hplainNames : .keyword .WHERE ∉
        joinWith [.sign [',']] ((first :: rest).map fun cell => [Token.name cell.1]) :=
      plain_joinWith fun _ _ => by simp
    have hplainValues : .keyword .WHERE ∉
        joinWith [.sign [',']] (((first :: rest).map Prod.snd).map fun v => [Token.value v]) :=
      plain_joinWith fun _ _ => by simp
    have hfront := (htable.append_readThrough ⟨' ', _, rfl, rfl⟩ hopen).append_readAs hnames
    have hback := hvalues.append (Clause.readThrough_operandPieces ((first :: rest).map Prod.snd))
    refine ⟨hfront.append ⟨')', _, rfl, rfl⟩ hback.readAs, ?_⟩
    simp only [tokens, Clause.operandTokens, List.mem_append, List.mem_cons, List.not_mem_nil,
      hplainNames, hplainValues, reduceCtorEq, or_self, not_false_eq_true]

end Insert

namespace Request

def frontTokens (m : Model) : Request → List Token
  | .select _ _ _ => Select.frontTokens m.tableName (m.columns.map Column.name)
  | .count _ => Count.frontTokens m.tableName
  | .exists _ => Exists.frontTokens m.tableName
  | .insert cells => Insert.tokens m.tableName cells
  | .update cells _ => Update.frontTokens m.tableName cells
  | .delete _ => Delete.frontTokens m.tableName

def backTokens (m : Model) : Request → Except QueryError (List Token)
  | .select _ keys window => do
    let order ← keys.mapM m.orderTerm
    .ok (orderTokens order ++ windowTokens (window.map Window.toRows))
  | .exists _ => .ok [.sign [')']]
  | .count _ | .insert _ | .update _ _ | .delete _ => .ok []

/-- The tokens of the statement of a request, each placeholder with the parameter bound to it. -/
def tokens (m : Model) (r : Request) : Except QueryError (List Token) := do
  let condition ← m.restriction r.filter
  let tail ← r.backTokens m
  .ok (r.frontTokens m ++ whereTokens condition ++ tail)

namespace Checked

variable {m : Model} {r : Request}

/-- The cells of a checked request are cells of columns of the model. -/
theorem names (hr : r.Checked m) : ∀ cell ∈ r.cells, m.Names cell.1 := by
  cases hr with
  | insert hc | update hc => exact Model.encode_names hc
  | select | count | «exists» | delete => exact fun _ h => absurd h List.not_mem_nil

theorem leads (hm : m.validate = .ok ()) (hr : r.Checked m) :
    Leads (r.front m) (r.frontTokens m) := by
  have hz := zero_not_mem_of_isIdentifier (Model.validate_isIdentifier hm).1
  have hcells : ∀ cell ∈ r.cells, '\x00' ∉ cell.1.toList := fun cell hcell =>
    (hr.names cell hcell).zero_not_mem hm
  cases r with
  | select _ _ _ =>
    exact Select.leads hz fun name hname => Model.Names.zero_not_mem hm (List.mem_map.mp hname)
  | count _ => exact Count.leads hz
  | «exists» _ => exact Exists.leads hz
  | insert cells => exact Insert.leads hz hcells
  | update cells _ => exact Update.leads hz hcells
  | delete _ => exact Delete.leads hz

theorem trails (hm : m.validate = .ok ()) (hr : r.Checked m) {tail : List Piece}
    (h : r.back m = .ok tail) : ∃ us, r.backTokens m = .ok us ∧ Trails tail us := by
  cases hr with
  | @select _ _ keys window hk =>
    simp only [back, bind_eq_ok, mapError_eq_ok, Except.ok.injEq] at h
    obtain ⟨order, ho, rfl⟩ := h
    have hread : ∀ term ∈ order, term.Readable := by
      intro term hterm
      obtain ⟨key, hkey, hterm⟩ := mem_of_mapM ho hterm
      exact Model.orderTerm_readable hm (SortKey.ofJson_subkeys hk key hkey) hterm
    exact ⟨_, by rw [backTokens, ho, ok_bind], (trails_order hread).append (trails_window _)⟩
  | «exists» =>
    cases h
    exact ⟨_, rfl, Exists.trails⟩
  | update _ =>
    simp only [back] at h
    split at h
    · cases h
    · cases h
      exact ⟨_, rfl, trails_nil⟩
  | count | insert _ | delete =>
    cases h
    exact ⟨_, rfl, trails_nil⟩

end Checked

end Request

theorem where_mem_whereTokens {condition : Option Clause} :
    .keyword .WHERE ∈ whereTokens condition ↔ condition ≠ none := by
  cases condition <;> simp [whereTokens]

/-- The text of the statement of a checked request is read as its tokens, among which the condition
stands behind `WHERE`. -/
theorem Model.exists_tokens {m : Model} (hm : m.validate = .ok ()) {r : Request}
    (hr : r.Checked m) {pieces : List Piece} (h : m.write r = .ok pieces) :
    ∃ condition ts, m.restriction r.filter = .ok condition ∧ r.tokens m = .ok ts ∧
      tokensOf (text pieces) (params pieces) = some ts ∧ Clause.ofTokens ts = some condition ∧
      (.keyword .WHERE ∈ ts ↔ condition ≠ none) := by
  obtain ⟨condition, tail, hc, hback, rfl⟩ := write_eq_ok_iff.mp h
  obtain ⟨us, hus, ht⟩ := hr.trails hm hback
  have hf := hr.leads hm
  have hread := restriction_readable hm hc
  refine ⟨condition, _, hc, by rw [Request.tokens, hc, ok_bind, hus, ok_bind],
    tokensOf_pieces (readAs_whereLine hf ht hread), ofTokens_whereTokens hf ht hread, ?_⟩
  rw [List.mem_append, List.mem_append, where_mem_whereTokens]
  simp only [hf.plain, ht.plain, false_or, or_false]

end RecordStore
