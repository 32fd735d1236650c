import RecordStore.Proofs.Session.Batches
import RecordStore.Proofs.Json.Arrays

/-!
# Creating several records at once

To create several records at once is to create them one after another. A creation differs from the
insertion of its row only in that the record is read back, and a row that was inserted is found. So
both ways insert the same rows: those with earlier keys are there when a later row is checked, and the
counter has moved on. The records of a batch are all checked against the model before the first row is
inserted, and a record that the model refuses stops the single creations as well.
-/

namespace RecordStore

namespace Model

variable {m : Model} {name : String} {db db' : Database} {record : Record} {records : List Record}

/-- A creation succeeds if its row is inserted. -/
theorem performs_create_iff (hm : m.Narrow) :
    (∃ answer, m.Performs (.create name record) db answer db') ↔
    ∃ cells id, m.encode true record = .ok cells ∧ db.insert (m.insert cells) = .ok (db', id) := by
  constructor
  · rintro ⟨answer, plan, hplan, haction⟩
    cases Operation.planned_of_planOn hplan with
    | create hc =>
      obtain ⟨_, hcreate, _⟩ := runMap_eq_ok.mp haction
      obtain ⟨id, db₁, hchange, hfetch⟩ := runBind_eq_ok.mp hcreate
      obtain rfl := commits_fetchById (R := (· = ·)) (fun _ => rfl) m _ id hfetch
      exact ⟨_, id, hc, Action.change_eq_ok.mp hchange⟩
  · rintro ⟨cells, id, hc, hinsert⟩
    obtain ⟨created, hfetch⟩ := fetchById_of_insert hm hinsert .creatingRecord
    refine ⟨.record created, _, planOn_create name hc, runMap_eq_ok.mpr ⟨created, ?_, rfl⟩⟩
    exact runBind_eq_ok.mpr ⟨id, db', Action.change_eq_ok.mpr hinsert, hfetch⟩

/-- Several rows are inserted one after another. -/
theorem createAllAction_cons_eq_ok {first : Insert} {rest : List Insert} {n : Nat} :
    createAllAction (first :: rest) db = .ok n db' ↔ ∃ db₁ id k,
      db.insert first = .ok (db₁, id) ∧ createAllAction rest db₁ = .ok k db' ∧ n = k + 1 := by
  constructor
  · intro h
    obtain ⟨_, _, hinserts, hpure⟩ := runBind_eq_ok.mp (Action.transaction_eq_ok.mp h)
    cases hpure
    obtain ⟨_, db₁, hfirst, hrest⟩ := runBind_eq_ok.mp hinserts
    obtain ⟨id, _, hinsert, hpure⟩ := runBind_eq_ok.mp hfirst
    cases hpure
    exact ⟨_, id, rest.length, Action.change_eq_ok.mp hinsert,
      Action.transaction_eq_ok.mpr (runBind_eq_ok.mpr ⟨_, _, hrest, rfl⟩), rfl⟩
  · rintro ⟨db₁, id, k, hinsert, hrest, rfl⟩
    obtain ⟨_, _, hinserts, hpure⟩ := runBind_eq_ok.mp (Action.transaction_eq_ok.mp hrest)
    cases hpure
    refine Action.transaction_eq_ok.mpr (runBind_eq_ok.mpr ⟨⟨⟩, _, ?_, rfl⟩)
    refine runBind_eq_ok.mpr ⟨⟨⟩, db₁, ?_, hinserts⟩
    exact runBind_eq_ok.mpr ⟨id, db₁, Action.change_eq_ok.mpr hinsert, rfl⟩

theorem performs_createAll_iff {answer : Answer} :
    m.Performs (.createAll name records) db answer db' ↔ ∃ statements n,
      records.mapM m.statementOf = .ok statements ∧ createAllAction statements db = .ok n db' ∧
        answer = .count n := by
  constructor
  · rintro ⟨plan, hplan, haction⟩
    cases Operation.planned_of_planOn hplan with
    | createAll hs =>
      obtain ⟨n, hcreate, rfl⟩ := runMap_eq_ok.mp haction
      exact ⟨_, n, hs, hcreate, rfl⟩
  · rintro ⟨statements, n, hstatements, hcreate, rfl⟩
    exact ⟨_, bind_eq_ok.mpr ⟨statements, hstatements, rfl⟩, runMap_eq_ok.mpr ⟨n, hcreate, rfl⟩⟩

/-- In the database, several records are created at once as they are one after another. -/
theorem performs_createAll_iff_performsAll (hm : m.Narrow) {answer : Answer} :
    m.Performs (.createAll name records) db answer db' ↔
      answer = .count records.length ∧ m.PerformsAll (records.map (.create name)) db db' := by
  induction records generalizing db answer with
  | nil =>
    rw [performs_createAll_iff]
    constructor
    · rintro ⟨_, _, ⟨⟩, ⟨⟩, rfl⟩
      exact ⟨rfl, .nil _⟩
    · rintro ⟨rfl, ⟨⟩⟩
      exact ⟨[], 0, rfl, rfl, rfl⟩
  | cons record rest ih =>
    constructor
    · intro h
      obtain ⟨statements, n, hstatements, hcreate, rfl⟩ := performs_createAll_iff.mp h
      simp only [List.mapM_cons, bind_eq_ok, pure, Except.pure, Except.ok.injEq] at hstatements
      obtain ⟨first, hfirst, others, hothers, rfl⟩ := hstatements
      obtain ⟨cells, hc, rfl⟩ := statementOf_eq_ok.mp hfirst
      obtain ⟨db₁, id, k, hinsert, hrest, rfl⟩ := createAllAction_cons_eq_ok.mp hcreate
      obtain ⟨hcount, hall⟩ := ih.mp (performs_createAll_iff.mpr ⟨others, k, hothers, hrest, rfl⟩)
      obtain ⟨created, hperforms⟩ := (performs_create_iff hm).mpr ⟨cells, id, hc, hinsert⟩
      obtain rfl : k = rest.length := Answer.count.inj hcount
      exact ⟨rfl, .cons hperforms hall⟩
    · rintro ⟨rfl, hall⟩
      obtain ⟨created, db₁, hperforms, hall⟩ := performsAll_cons_iff.mp hall
      obtain ⟨cells, id, hc, hinsert⟩ := (performs_create_iff hm).mp ⟨created, hperforms⟩
      obtain ⟨others, k, hothers, hrest, hcount⟩ := performs_createAll_iff.mp (ih.mpr ⟨rfl, hall⟩)
      obtain rfl : rest.length = k := Answer.count.inj hcount
      refine performs_createAll_iff.mpr ⟨m.insert cells :: others, rest.length + 1, ?_, ?_, rfl⟩
      · rw [List.mapM_cons, statementOf_eq_ok.mpr ⟨cells, hc, rfl⟩, ok_bind, hothers]
        rfl
      · exact createAllAction_cons_eq_ok.mpr ⟨db₁, id, rest.length, hinsert, hrest, rfl⟩

end Model

namespace Command

/-- The records of an array of objects. -/
theorem mapM_recordOf (records : List Record) :
    (records.map Json.object).mapM recordOf = .ok records := by
  induction records with
  | nil => rfl
  | cons record rest ih =>
    rw [List.map_cons, List.mapM_cons, recordOf, ok_bind, ih]
    rfl

/-- To import a file that holds an array of records is to create them. -/
theorem operation?_importFile {files : FileTree} {file text : String} {records : List Record}
    (hfile : files.readText file = .ok text)
    (htext : Json.read text = .ok (.array (records.map .object))) (name : String) :
    (importFile name file).operation? files = .ok (some (.createAll name records)) := by
  simp only [operation?, hfile, mapError_ok, ok_bind, readRecords, Json.readArray_of_read htext,
    mapM_recordOf]

end Command

namespace Session

variable {good : Json → Prop} {s : Session} {m : Model}

/-- In a serving session that is open, the connection for the changes of a model leads to a
database. -/
theorem Serving.reaches (h : Serving good s) (hopen : s.isClosed = false) (hr : s.router.Connected)
    (m : Model) : ∃ handle db, s.Reaches m handle db := by
  obtain ⟨_, _, hlocated⟩ := h.served.located
  obtain ⟨db, hdb⟩ := hlocated.databaseOf_of_open hopen (hr m).2
  exact (databaseOf?_eq_some.mp hdb).imp fun handle hleads => ⟨db, hleads⟩

/-- Several records are created at once as they are one after another, also from a file. To create no
records takes an open connection, which no creations do not need. -/
theorem createAll_at_once (h : Serving good s) (hm : m ∈ s.registry.models) (records : List Record)
    (hempty : records = [] → s.isClosed = false ∧ s.router.Connected) :
    s.AtOnce (records.map (.create m.name)) (perform (.createAll m.name records))
        (.count records.length) ∧
      ∀ file text, s.files.readText file = .ok text →
        Json.read text = .ok (.array (records.map .object)) →
        s.AtOnce (records.map (.create m.name)) (Command.run (.importFile m.name file))
          (.object [("created", Command.natJson records.length)]) := by
  have hget : s.registry.get m.name = .ok m := h.served.reachable.registry_proper.get_of_mem hm
  have hchange : ChangeRecords m (.createAll m.name records :: records.map (.create m.name)) :=
    changeRecords_map ⟨rfl, rfl⟩ (fun _ => ⟨rfl, rfl⟩) records
  have hreaches : records.map (Operation.create m.name) = [] →
      ∃ handle db, s.Reaches m handle db := by
    intro hnil
    obtain ⟨hopen, hr⟩ := hempty (List.map_eq_nil_iff.mp hnil)
    exact h.reaches hopen hr m
  have honce : s.AtOnce (records.map (.create m.name)) (perform (.createAll m.name records))
      (.count records.length) :=
    atOnce_of_performsAll h.served.reachable.proper hget hchange hreaches (fun _ _ => nofun)
      fun _ _ _ _ _ => Model.performs_createAll_iff_performsAll (h.narrow hm)
  refine ⟨honce, fun file text hfile htext => ?_⟩
  have hoperation := Command.operation?_importFile hfile htext m.name
  exact (honce.map (Command.importFile m.name file).shown).congr
    (command_run_of_operation hoperation)

/-- Two persons of different names. -/
def twoPersons : List Record := [[("name", .string "Ann")], [("name", .string "Bob")]]

/-- A closed session of persons with a file that lists two of them. -/
def listedClosed : Session :=
  { uniqueSession with
    files := .ofTexts [("persons.json", (Json.array (twoPersons.map .object)).text)] }

def listedSession : Session := listedClosed.after .init

theorem serving_listedSession (good : Json → Prop) : Serving good listedSession := by
  have hopened : listedClosed.Reachable :=
    .opened (FileTree.proper_ofTexts _) (rfl : ofConfig uniqueConfig .default _ = .ok _)
  have hopen : listedClosed.OpensFresh listedSession := ⟨rfl, .memory, _, rfl, rfl, rfl⟩
  have hdistinct : DistinctTables listedClosed.registry.models := List.pairwise_singleton _ _
  refine .opened hopened hdistinct (fun m hm f hf _ value hvalue => ?_) hopen
  obtain rfl := List.mem_singleton.mp hm
  obtain rfl := List.mem_singleton.mp hf
  cases hvalue

/-- The two persons are imported as they are created one after another, which succeeds. -/
theorem import_two_persons : listedSession.AtOnce (twoPersons.map (.create "Person"))
      (Command.run (.importFile "Person" "persons.json"))
      (.object [("created", Command.natJson twoPersons.length)]) ∧
    ∃ s', performAll (twoPersons.map (.create "Person")) listedSession = .ok () s' := by
  have honce := createAll_at_once (serving_listedSession fun _ => True)
    (List.mem_cons_self : uniquePerson ∈ _) twoPersons nofun
  have hread : Json.read (Json.array (twoPersons.map .object)).text =
      .ok (.array (twoPersons.map .object)) := Json.read_text ⟨by decide, by decide⟩
  exact ⟨honce.2 "persons.json" _ rfl hread, _, rfl⟩

end Session

end RecordStore
