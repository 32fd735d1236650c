import RecordStore.Proofs.Session.Agreement
import RecordStore.Proofs.Query.Grammar
import RecordStore.Proofs.Query.Matching
import RecordStore.Proofs.Query.Selection
import RecordStore.Proofs.Operation.Answers

/-!
# Looking up what was written

A record that was created is looked up by equality with a value that it was given. It is found, both
by a listing and by a search for one record, unless the value is a number of a field of doubles that
is compared as an integer although no double equals it: such a number is stored as the double next to
it, and compared as it is.
-/

namespace RecordStore

/-! ## Equality with a value -/

namespace Filter

/-- The filter that asks for equality with a value, whatever the value. -/
theorem ofJson_equal {name : String} (h : isIdentifier name = true) (value : Json) :
    ofJson (.object [(name, .object [("$eq", value)])]) =
      .ok (.all [.condition ⟨name, .equal, value⟩]) := by
  have hkeys : ∀ member ∈ [(name, value)], isIdentifier member.1 = true :=
    List.forall_mem_singleton.mpr h
  exact ofJson_equalities hkeys

end Filter

namespace Model

variable {m : Model} {f : Field} {value : Json} {record : Record}
variable {cells : List (String × SqlValue)}

/-- A condition of equality with a value is compiled wherever the column is known. -/
theorem restriction_equal {name : String} {column : Column} (hcolumn : m.column? name = some column)
    (value : Json) :
    ∃ condition, m.restriction (some (.condition ⟨name, .equal, value⟩)) = .ok condition ∧
      m.restriction (some (.all [.condition ⟨name, .equal, value⟩])) = .ok condition := by
  have hresolve : m.resolve name = .ok column := resolve_eq_ok.mpr hcolumn
  obtain ⟨clause, hclause⟩ : ∃ clause,
    (⟨name, .equal, value⟩ : Condition).clauseOn column = .ok clause := ⟨_, rfl⟩
  have hcompile : m.compile (.condition ⟨name, .equal, value⟩) = .ok (some clause) := by
    rw [compile, hresolve, ok_bind, hclause, map_ok]
  refine ⟨some clause, hcompile, ?_⟩
  show m.compile (.all [.condition _]) = _
  rw [compile, compileParts, hcompile]
  rfl

/-- What has a value in a column can be read, if the model is narrow. -/
theorem fits_equal (hm : m.Narrow) {name : String} {condition : Option Clause}
    (h : m.restriction (some (.condition ⟨name, .equal, value⟩)) = .ok condition)
    (window : Option RowWindow) : (m.selectWhere condition window).Fits :=
  fits_selectWhere.mpr ⟨hm, fit_equal h (by decide) window⟩

/-- A search for one record and a filter for the same value mean the same condition. -/
theorem conditions_equal (hvalid : m.validate = .ok ()) {column : Column} (h : column ∈ m.columns)
    (value : Json) : ∃ condition,
      m.restriction (some (.condition ⟨column.name, .equal, value⟩)) = .ok condition ∧
        m.conditionFor (some (.object [(column.name, .object [("$eq", value)])])) =
          .ok condition := by
  obtain ⟨found, hfound⟩ : ∃ found, m.column? column.name = some found :=
    Option.isSome_iff_exists.mp (List.find?_isSome.mpr ⟨column, h, decide_eq_true rfl⟩)
  obtain ⟨condition, hfind, hlist⟩ := restriction_equal hfound value
  have hname : isIdentifier column.name = true := (validate_isIdentifier hvalid).2 column h
  refine ⟨condition, hfind, ?_⟩
  rw [conditionFor, Operation.filterOf_eq_ok (Filter.ofJson_equal hname value), ok_bind, hlist]

/-- The new row of a record meets equality with one of its values if the value is found. -/
theorem new_meaning {t : Table} (hown : m.OwnTable t) (hf : f ∈ m.fields)
    (hc : m.encode true record = .ok cells) (hvalue : Json.member? record f.name = some value)
    {t' : Table} {id : Int64} (hinsert : t.insert m.tableName cells = .ok (t', id)) :
    (Filter.condition ⟨f.name, .equal, value⟩).meaning m ⟨id, t.newCells cells⟩ = true ↔
      f.kind.Found value := by
  have htyped : m.Typed (fun _ => True) ⟨id, t.newCells cells⟩ :=
    insert_typed hown (fun _ _ _ _ _ => trivial) (m.admits_any _) hc hinsert
  have hmem : Column.field f ∈ m.columns := List.mem_cons_of_mem _ (List.mem_map_of_mem hf)
  have hcolumn : m.column? f.name = some (.field f) := hown.column?_of_mem hmem
  have hlength := hown.new_length cells
  rcases hown.assigned?_of_encode hc hmem with ⟨hnone, _⟩ | ⟨_, given, hsome, hassigned, hencode⟩
  · cases hvalue.symm.trans hnone
  · cases hvalue.symm.trans hsome
    have hentry : (Column.field f, given.stored f.kind.columnType) ∈
        m.entries ⟨id, t.newCells cells⟩ := by
      rw [hown.entries_new]
      refine List.mem_cons_of_mem _ (List.mem_map.mpr ⟨f, hf, ?_⟩)
      rw [Field.newCell, show assigned? cells f.name = some given from hassigned]
      rfl
    have hcell := hown.cell?_of_entry hlength hentry
    refine (condition_meaning hlength htyped hencode).trans ?_
    constructor
    · exact fun h => h.2 _ hcolumn
    · intro hfound
      refine ⟨⟨.field f, hcell⟩, fun column heq => ?_⟩
      cases hcolumn.symm.trans heq
      exact hfound

theorem single_eq_notFound {records : List Record}
    (h : single records = .error .recordNotFound) : records = [] := by
  match records with
  | [] => rfl
  | [first] => cases h
  | first :: second :: rest => cases h

/-- Whether there is one record shows in the first two. -/
theorem single_take (records : List Record) :
    single (records.take searchWindow.limit) = single records := by
  match records with
  | [] => rfl
  | [first] => rfl
  | first :: second :: rest => rfl

/-- A search for one record reads the first two that it finds. -/
theorem planOn_find (name : String) {field : String} {condition : Option Clause}
    (h : m.restriction (some (.condition ⟨field, .equal, value⟩)) = .ok condition) :
    (Operation.find name field value).planOn m = .ok ⟨.read, do
      let records ← m.fetch .fetchingRecord (m.selectWhere condition (some searchWindow.toRows))
      .record <$> MonadExcept.ofExcept (single records)⟩ := by
  have hselect : m.select (some (.condition ⟨field, .equal, value⟩)) [] (some searchWindow) =
      .ok (m.selectWhere condition (some searchWindow.toRows)) := by
    rw [select, h]
    rfl
  simp only [Operation.planOn, hselect, mapError_ok, ok_bind]

end Model

namespace Session

variable {s s' : Session} {m : Model} {db : Database} {t : Table} {f : Field} {value : Json}

/-- The search for one record answers what all records that meet the condition would give. -/
theorem Views.answer_find (h : s.Views m .read db t) (hm : m.Narrow) {field : String}
    {condition : Option Clause}
    (hc : m.restriction (some (.condition ⟨field, .equal, value⟩)) = .ok condition) :
    s.answer (.find m.name field value) =
      (Model.single ((db.planner.visit t condition []).map (m.recordIn t))).map .record := by
  have hplan := Model.planOn_find m.name hc
  have hfits := Model.fits_equal hm hc (some Model.searchWindow.toRows)
  obtain ⟨shown, hfetch, hshown⟩ : ∃ shown, m.fetch .fetchingRecord
      (m.selectWhere condition (some Model.searchWindow.toRows)) db = .ok shown db ∧
        Model.single shown = Model.single ((db.planner.visit t condition []).map (m.recordIn t)) := by
    refine ⟨_, Model.fetch_recordIn h.table .fetchingRecord hfits, ?_⟩
    rw [← Model.single_take (List.map _ (db.planner.visit t condition [])), ← List.map_take]
    rfl
  rw [← hshown]
  cases hsingle : Model.single shown with
  | ok record =>
    have hanswer : (.record <$> MonadExcept.ofExcept (Model.single shown) : Action Answer) db =
        .ok (.record record) db :=
      runMap_eq_ok.mpr ⟨record, runOfExcept_eq_ok.mpr ⟨hsingle, rfl⟩, rfl⟩
    exact answer_of_action h.get h.database rfl hplan (runBind_eq_ok.mpr ⟨shown, db, hfetch, hanswer⟩)
  | error e =>
    have hanswer : (.record <$> MonadExcept.ofExcept (Model.single shown) : Action Answer) db =
        .error e db := runMap_eq_error.mpr (runOfExcept_eq_error.mpr ⟨hsingle, rfl⟩)
    exact answer_of_failure h.get h.database rfl hplan
      (runBind_eq_error.mpr (.inr ⟨shown, db, hfetch, hanswer⟩))

theorem Offers.answer_find (h : s.Offers m db t) {field : String} {condition : Option Clause}
    (hc : m.restriction (some (.condition ⟨field, .equal, value⟩)) = .ok condition) :
    s.answer (.find m.name field value) =
      (Model.single ((db.planner.visit t condition []).map m.recordOf)).map .record := by
  rw [(h.views .read).answer_find h.own.narrow hc, Model.visit_recordIn h.own]

/-- A creation that succeeds adds a row to the table of the model. -/
theorem Offers.insert_of_create (h : s.Offers m db t) {record created : Record}
    (hcreate : perform (.create m.name record) s = .ok (.record created) s') : ∃ cells t' id,
      m.encode true record = .ok cells ∧ t.insert m.tableName cells = .ok (t', id) ∧
        created = m.recordOf ⟨id, t.newCells cells⟩ ∧ s' = s.setDatabase (db.setTable t') := by
  cases hc : m.encode true record with
  | error e =>
    have hplan : (Operation.create m.name record).planOn m = .error (.validation e) := by
      simp only [Operation.planOn, Operation.cellsOf, hc, mapError_error, error_bind]
    cases hcreate.symm.trans (perform_of_refused (.create m.name record) h.get hplan)
  | ok cells =>
    cases hstatement : db.insert (m.insert cells) with
    | error cause => cases hcreate.symm.trans (h.create_of_refused hc hstatement)
    | ok added =>
      obtain ⟨db', id⟩ := added
      obtain ⟨hfit, found, t', hfound, hinsert, rfl⟩ := Database.insert_eq_ok.mp hstatement
      cases h.table.symm.trans hfound
      cases hcreate.symm.trans (h.create_eq_ok hc hfit hinsert)
      exact ⟨cells, t', id, rfl, hinsert, rfl, rfl⟩

/-- In whatever state of a session whose connections reach the same database, where the table of a
model was made for it: after the creation of a record that gives a field a value, a listing of the
records with this value has the new record exactly if the value is found. The search for one record
never answers that there is none if the value is found, and never answers with the new record
otherwise. -/
theorem created_found_by_equality (h : s.Reachable) (hj : s.Joint) (hr : s.router.Connected)
    (hm : m ∈ s.registry.models) (hdb : s.database? = some db)
    (ht : db.table? m.tableName = some t) (hown : m.OwnTable t) (hf : f ∈ m.fields)
    {record created : Record} (hvalue : Json.member? record f.name = some value)
    (hcreate : perform (.create m.name record) s = .ok (.record created) s') :
    (∃ listed, s'.answer (.list m.name
        ⟨some (.object [(f.name, .object [("$eq", value)])]), none, none, none⟩) =
          .ok (.records listed) ∧ (created ∈ listed ↔ f.kind.Found value)) ∧
    (f.kind.Found value → s'.answer (.find m.name f.name value) ≠ .error .recordNotFound) ∧
    (¬ f.kind.Found value → s'.answer (.find m.name f.name value) ≠ .ok (.record created)) := by
  have hoffers : s.Offers m db t := ⟨h.proper, h.registry_proper, hj, hr, hm, hdb, ht, hown⟩
  obtain ⟨cells, t', id, hc, hinsert, rfl, rfl⟩ := hoffers.insert_of_create hcreate
  have hafter := hoffers.setTable (Table.insert_name hinsert).1 (.inserted hown hinsert)
  have hmem : Column.field f ∈ m.columns := List.mem_cons_of_mem _ (List.mem_map_of_mem hf)
  obtain ⟨condition, hfind, hfilter⟩ : ∃ condition,
      m.restriction (some (.condition ⟨f.name, .equal, value⟩)) = .ok condition ∧
        m.conditionFor (some (.object [(f.name, .object [("$eq", value)])])) = .ok condition :=
    Model.conditions_equal (h.registry_proper.valid m hm) hmem value
  have hrow : ⟨id, t.newCells cells⟩ ∈ t'.rows := by
    rw [(Table.insert_eq_ok hinsert).2]
    exact Table.mem_insertRow.mpr (.inl rfl)
  have hlisted : m.recordOf ⟨id, t.newCells cells⟩ ∈
      ((db.setTable t').planner.visit t' condition []).map m.recordOf ↔ f.kind.Found value := by
    rw [m.recordOf_mem_iff hafter.own.sorted _ condition hrow,
      restriction_meaning hafter.own hrow hfind]
    exact Model.new_meaning hown hf hc hvalue hinsert
  have hlist := hafter.answer_list hfilter (Model.fits_equal hown.narrow hfind none)
  refine ⟨⟨_, hlist, hlisted⟩, fun hfound hnone => ?_, fun hnot hsome => ?_⟩
  · rw [hafter.answer_find hfind] at hnone
    have hempty := Model.single_eq_notFound (map_eq_error.mp hnone)
    exact List.ne_nil_of_mem (hlisted.mpr hfound) hempty
  · rw [hafter.answer_find hfind] at hsome
    obtain ⟨record, hsingle, heq⟩ := map_eq_ok.mp hsome
    cases heq
    exact hnot (hlisted.mp (Model.single_eq_ok hsingle))

/-- One more than `2^53`, the first integer that no double equals. -/
def uneven : Number := .integer 9007199254740993 (by decide)

theorem uneven_not_exact : ¬ uneven.Exact := by
  rw [uneven, ← Double.compareInt_ofInt]
  decide +kernel

/-- A game with that score is created, and then neither listed by its score nor found. -/
theorem uneven_score_not_found : ∃ created s' listed,
    perform (.create "Game" [("player", .string "Ann"), ("score", .number uneven)]) gameSession =
      .ok (.record created) s' ∧
    s'.answer (.list "Game"
      ⟨some (.object [("score", .object [("$eq", .number uneven)])]), none, none, none⟩) =
        .ok (.records listed) ∧ created ∉ listed ∧
    s'.answer (.find "Game" "score" (.number uneven)) ≠ .ok (.record created) := by
  have hs := serving_gameSession fun _ => True
  obtain ⟨db, t, hoffers, _⟩ := hs.offers (m := gameModel) rfl rfl
    Router.connected_default List.mem_cons_self
  obtain ⟨created, s', hcreate⟩ : ∃ created s',
      perform (.create "Game" [("player", .string "Ann"), ("score", .number uneven)]) gameSession =
        .ok (.record created) s' := ⟨_, _, rfl⟩
  have hf : (⟨"score", .float, true, false, none⟩ : Field) ∈ gameModel.fields := by decide
  obtain ⟨⟨listed, hlist, hmem⟩, _, hfind⟩ := created_found_by_equality hs.served.reachable rfl
    Router.connected_default hoffers.mem hoffers.database hoffers.table hoffers.own hf rfl hcreate
  have hnot : ¬ FieldKind.float.Found (.number uneven) := fun hfound =>
    uneven_not_exact (hfound rfl _ (by decide) rfl (by decide))
  exact ⟨created, s', listed, hcreate, hlist, fun h => hnot (hmem.mp h), hfind hnot⟩

end Session

end RecordStore
