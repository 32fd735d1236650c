import RecordStore.Proofs.Session.Schema
import RecordStore.Proofs.Session.Creation
import RecordStore.Proofs.Session.Identity

/-!
# Records of many members

A model of 999 fields has a table, and its records are created and read. With its key such a record
has a thousand members, and a condition on all of them has too many levels: the record is not found
by its members, and a record like it is neither found nor created by an upsert.
-/

namespace RecordStore

namespace Session

/-- The name of one of many fields. -/
def manyName (i : Nat) : String := .ofList ('f' :: Nat.toDigits 10 i)

theorem toList_manyName (i : Nat) : (manyName i).toList = 'f' :: Nat.toDigits 10 i :=
  String.toList_ofList

theorem isIdentifier_manyName (i : Nat) : isIdentifier (manyName i) = true := by
  rw [isIdentifier, toList_manyName, isIdentifierChars, Bool.and_eq_true, List.all_eq_true]
  refine ⟨rfl, fun c hc => ?_⟩
  simp [isIdentifierRest, Char.isAlphanum, isDigit_toDigits i c hc]

theorem toLower_of_isDigit {c : Char} (h : c.isDigit = true) : c.toLower = c := by
  simp only [Char.isDigit, Bool.and_eq_true, decide_eq_true_eq, UInt32.le_iff_toNat_le] at h
  refine dif_neg fun hupper => ?_
  have hle := UInt32.le_iff_toNat_le.mp hupper.1
  have hA : 'A'.val.toNat = 65 := rfl
  have h9 : '9'.val.toNat = 57 := rfl
  omega

/-- The names are written in small letters and digits. -/
theorem map_toLower_manyName (i : Nat) :
    (manyName i).toList.map Char.toLower = 'f' :: Nat.toDigits 10 i := by
  have hdigits : (Nat.toDigits 10 i).map Char.toLower = Nat.toDigits 10 i := by
    conv_rhs => rw [← List.map_id (Nat.toDigits 10 i)]
    exact List.map_congr_left fun c hc => toLower_of_isDigit (isDigit_toDigits i c hc)
  rw [toList_manyName, List.map_cons, hdigits]
  rfl

theorem sameName_manyName {i j : Nat} (h : sameName (manyName i) (manyName j) = true) : i = j := by
  rw [sameName, decide_eq_true_eq, map_toLower_manyName, map_toLower_manyName] at h
  have hvalue := congrArg (Nat.ofDigitChars 10 · 0) (List.cons.inj h).2
  rwa [Nat.ofDigitChars_ten_toDigits, Nat.ofDigitChars_ten_toDigits] at hvalue

theorem not_sameName_id_manyName (i : Nat) : sameName primaryKey (manyName i) = false := by
  rw [sameName, decide_eq_false_iff_not, map_toLower_manyName]
  exact fun h => absurd (List.cons.inj h).1 (by decide)

/-- So many fields that may be empty. -/
def manyFields (n : Nat) : List Field :=
  (List.range n).map fun i => ⟨manyName i, .text, true, false, none⟩

theorem mem_manyFields {n : Nat} {f : Field} (hf : f ∈ manyFields n) :
    ∃ i, f = ⟨manyName i, .text, true, false, none⟩ := by
  obtain ⟨i, _, rfl⟩ := List.mem_map.mp hf
  exact ⟨i, rfl⟩

theorem length_manyFields (n : Nat) : (manyFields n).length = n := by
  rw [manyFields, List.length_map, List.length_range]

/-- The names of the fields differ without regard to case. -/
theorem manyFields_apart (n : Nat) :
    (manyFields n).Pairwise fun a b => sameName a.name b.name = false := by
  rw [manyFields, List.pairwise_map]
  refine List.nodup_range.imp fun hne => ?_
  rw [← Bool.not_eq_true]
  exact fun h => hne (sameName_manyName h)

/-- A model of so many fields. -/
def wideModel (n : Nat) : Model := ⟨"Wide", none, manyFields n⟩

theorem length_columns_wideModel (n : Nat) : (wideModel n).columns.length = n + 1 := by
  rw [Model.columns, List.length_cons, List.length_map, wideModel, length_manyFields]

theorem tableName_wideModel (n : Nat) : (wideModel n).tableName = "wide" :=
  show Model.tableName ⟨"Wide", none, []⟩ = "wide" by decide

theorem validate_wideModel (n : Nat) : (wideModel n).validate = .ok () := by
  have hname : isIdentifier "Wide" = true := by decide
  have htable : isIdentifier "wide" = true := by decide
  refine Model.validate_eq_ok_iff.mpr ⟨hname, tableName_wideModel n ▸ htable, ?_, ?_, ?_, ?_⟩
  · intro f hf
    obtain ⟨i, rfl⟩ := mem_manyFields hf
    exact isIdentifier_manyName i
  · rintro f hf heq
    obtain ⟨i, rfl⟩ := mem_manyFields hf
    have happart := not_sameName_id_manyName i
    rw [← heq, sameName_self] at happart
    cases happart
  · refine (manyFields_apart n).imp fun happart heq => ?_
    rw [heq, sameName_self] at happart
    cases happart
  · intro f hf value hvalue
    obtain ⟨i, rfl⟩ := mem_manyFields hf
    cases hvalue

theorem placeable_wideModel {n : Nat} (hn : n + 1 ≤ columnLimit) : (wideModel n).Placeable [] where
  name := by
    rw [tableName_wideModel]
    decide
  defaults f hf text htext := by
    obtain ⟨i, rfl⟩ := mem_manyFields hf
    cases htext
  columns := by
    refine .inr ⟨?_, ?_⟩
    · rw [Model.columnNames, Model.columns, List.map_cons, List.map_map, List.pairwise_cons]
      refine ⟨fun name hname => ?_, List.pairwise_map.mpr (manyFields_apart n)⟩
      obtain ⟨f, hf, rfl⟩ := List.mem_map.mp hname
      obtain ⟨i, rfl⟩ := mem_manyFields hf
      exact not_sameName_id_manyName i
    · rwa [Model.columnNames, List.length_map, length_columns_wideModel]

def wideConfig (n : Nat) : DatabaseConfig := ⟨"sqlite://:memory:", "test", [wideModel n]⟩

/-- A session with that configuration and no connections. -/
def wideClosed (n : Nat) : Session :=
  ⟨wideConfig n, .of "test" (wideConfig n).models, .default, none, ⟨[]⟩, .default⟩

/-- The session as it serves after its opening. -/
def wideSession (n : Nat) : Session := (wideClosed n).after .init

variable (n : Nat)

theorem ofConfig_wideConfig : ofConfig (wideConfig n) .default ⟨[]⟩ = .ok (wideClosed n) := by
  rw [ofConfig, wideConfig, Registry.ofModels_single (validate_wideModel n)]
  rfl

theorem models_wideClosed : (wideClosed n).registry.models = [wideModel n] := by
  have hregister : Registry.ofModels "test" [wideModel n] = .ok _ :=
    Registry.ofModels_single (validate_wideModel n)
  exact (Registry.ofModels_eq_ok hregister).1

theorem uri_wideClosed : Location.ofUri (wideClosed n).config.uri = .ok .memory := by
  show Location.ofUri "sqlite://:memory:" = _
  decide

/-- The opening makes the table. -/
theorem opensFresh_wideSession (hn : n + 1 ≤ columnLimit) :
    (wideClosed n).OpensFresh (wideSession n) := by
  have hmade : ∃ db, ((wideClosed n).registry.models.forM createTable : Action Unit)
      (.empty .default) = .ok () db := by
    rw [models_wideClosed]
    refine (isOk_createTables_iff (List.forall_mem_singleton.mpr (validate_wideModel n))
      (tablesOf_empty _)).mpr ?_
    rw [forall_split_cons (P := fun before (m : Model) => m.Placeable ([] ++ before))]
    exact ⟨placeable_wideModel hn, by simp⟩
  obtain ⟨db, hdb⟩ := hmade
  have hinit := (init_memory_eq_ok_iff (uri_wideClosed n)).mpr ⟨db, hdb, rfl⟩
  have hsession : wideSession n = { wideClosed n with connections := some (.ofMemory db) } := by
    rw [wideSession, Session.after, hinit]
    rfl
  exact ⟨hsession ▸ hinit, .memory, _, uri_wideClosed n, rfl, rfl⟩

theorem serving_wideSession (hn : n + 1 ≤ columnLimit) (good : Json → Prop) :
    Serving good (wideSession n) := by
  have hreachable : (wideClosed n).Reachable :=
    .opened (FileTree.proper_ofTexts []) (ofConfig_wideConfig n)
  refine .opened hreachable ?_ ?_ (opensFresh_wideSession n hn)
  · rw [models_wideClosed]
    exact List.pairwise_singleton _ _
  · intro m hm f hf _ value hvalue
    rw [models_wideClosed, List.mem_singleton] at hm
    obtain ⟨i, rfl⟩ := mem_manyFields (hm ▸ hf)
    cases hvalue

/-- The table of the session has no rows yet. -/
theorem offers_wideSession (hn : n + 1 ≤ columnLimit) : ∃ db t,
    (wideSession n).Offers (wideModel n) db t ∧ t.rows = [] ∧ t.sequence = 0 := by
  have hopens := opensFresh_wideSession n hn
  have hserving := serving_wideSession n hn fun _ => True
  have hm : wideModel n ∈ (wideClosed n).registry.models :=
    models_wideClosed n ▸ List.mem_singleton_self _
  obtain ⟨db, hdb, hnew, hall⟩ := hopens.tables
  obtain ⟨t, ht⟩ := hall _ hm
  obtain ⟨hrows, hsequence, c, hc, hown, _⟩ := hnew t (Database.table?_mem ht)
  rw [models_wideClosed, List.mem_singleton] at hc
  subst hc
  have hsetup := (opened_of_init hopens.init).1
  have hjoint := hserving.joint fun _ hpath => by
    rw [hsetup.config, uri_wideClosed] at hpath
    cases hpath
  exact ⟨db, t, ⟨hserving.served.reachable.proper, hserving.served.reachable.registry_proper, hjoint,
    hsetup.router ▸ Router.connected_default, hsetup.registry ▸ hm, hdb, ht, hown⟩, hrows, hsequence⟩

/-- A lookup of all members that a record may have. -/
def wideLookup : Record := (primaryKey, .ofInt64 1) :: (wideModel n).sampleRecord

theorem length_wideLookup : (wideLookup n).length = n + 1 := by
  rw [wideLookup, Model.sampleRecord, List.length_cons, List.length_map, wideModel, length_manyFields]

theorem wideLookup_arguments : UpsertArguments (wideModel n) (wideLookup n) []
    ((primaryKey, .integer 1) :: (wideModel n).sampleCells) [] where
  sought := by
    have hfields := Model.encode_sampleRecord (validate_wideModel n) true
    rw [Model.encode] at hfields
    rw [wideLookup, Model.encode, List.mapM_cons, hfields]
    rfl
  changes := rfl
  distinct := by
    have happart := (Model.validate_eq_ok_iff.mp (validate_wideModel n)).distinct
    rw [List.append_nil, wideLookup, Json.DistinctKeys, List.pairwise_cons, Model.sampleRecord]
    refine ⟨fun member hmember heq => ?_, List.pairwise_map.mpr happart⟩
    obtain ⟨f, hf, rfl⟩ := List.mem_map.mp hmember
    exact (Model.validate_eq_ok_iff.mp (validate_wideModel n)).unreserved f hf heq.symm
  exact f hf hfloat _ _ := by
    obtain ⟨i, rfl⟩ := mem_manyFields hf
    cases hfloat

/-- The lookup of a thousand members finds nothing in an empty table, and creates nothing. -/
theorem wide_upsert_refused :
    (∃ sought, UpsertArguments (wideModel 999) (wideLookup 999) [] sought []) ∧
    (wideSession 999).answer (.count "Wide" none) = .ok (.count 0) ∧
      (wideSession 999).Exceeds (.upsert "Wide" (wideLookup 999) []) := by
  have hn : 999 + 1 ≤ columnLimit := by decide
  obtain ⟨db, t, hoffers, hrows, _⟩ := offers_wideSession 999 hn
  have harguments := wideLookup_arguments 999
  have hcount := (hoffers.views .read).answer_count_all
  rw [hrows] at hcount
  refine ⟨⟨_, harguments⟩, hcount, hoffers.upsert_exceeds harguments ?_⟩
  rw [length_wideLookup]
  decide

/-- The record that sets all fields is created and read, and stands for itself if it has not too many
members. -/
theorem exists_wide_record (hn : n + 1 ≤ columnLimit) : ∃ record id s',
    perform (.create "Wide" (wideModel n).sampleRecord) (wideSession n) = .ok (.record record) s' ∧
      s'.answer (.get "Wide" id) = .ok (.record record) ∧ record.length = n + 1 ∧
      s'.Identifies (wideModel n) record := by
  obtain ⟨db, t, hoffers, hrows, hsequence⟩ := offers_wideSession n hn
  have hcells := Model.encode_sampleRecord (validate_wideModel n) true
  obtain ⟨t', id, hinsert, _⟩ :=
    hoffers.own.insert_sampleCells hrows hsequence (wideModel n).tableName
  have hperform : perform (.create "Wide" (wideModel n).sampleRecord) (wideSession n) = .ok _ _ :=
    hoffers.create_eq_ok hcells ((wideModel n).fit_sampleCells hoffers.own.narrow) hinsert
  have hafter := hoffers.setTable (Table.insert_name hinsert).1 (.inserted hoffers.own hinsert)
  have hfetch := Model.fetchById_of_new hoffers.own hoffers.table .fetchingRecord hinsert
  have hmodels : (wideSession n).registry.models = [wideModel n] := by
    rw [wideSession, (sameSetup_after (wideClosed n) .init).registry, models_wideClosed]
  have hbrings : (Event.operation (.create "Wide" (wideModel n).sampleRecord)).Brings Json.Proper
      (wideSession n).registry.models := by
    intro m hm _ record hrecord member hmember f hf _ hkind
    rw [hmodels, List.mem_singleton] at hm
    obtain ⟨i, rfl⟩ := mem_manyFields (hm ▸ hf)
    cases hkind
  have hserving := (serving_wideSession n hn Json.Proper).after hbrings
  rw [Session.after, hperform] at hserving
  have hrow : ⟨id, t.newCells (wideModel n).sampleCells⟩ ∈ t'.rows := by
    rw [(Table.insert_eq_ok hinsert).2]
    exact (Table.insertRow_perm _ _).mem_iff.mpr List.mem_cons_self
  refine ⟨_, id, _, hperform, hafter.answer_eq_ok rfl rfl (runMap_eq_ok.mpr ⟨_, hfetch, rfl⟩), ?_,
    hserving.identifies hafter.joint hafter.connected hafter.database hafter.mem hafter.table hrow⟩
  rw [hoffers.own.recordOf_new hcells, Model.newRecord_eq, List.length_map, length_columns_wideModel]

/-- A record of a thousand members that is created and read is not found by its members, and an
upsert of it is refused. -/
theorem wide_record_not_found : ∃ record id s',
    perform (.create "Wide" (wideModel 999).sampleRecord) (wideSession 999) =
        .ok (.record record) s' ∧
      s'.answer (.get "Wide" id) = .ok (.record record) ∧
      s'.Exceeds (.list "Wide" ⟨some (Filter.equalities record), none, none, none⟩) ∧
      s'.Exceeds (.upsert "Wide" record []) := by
  obtain ⟨record, id, s', hperform, hget, hlength, hidentifies⟩ := exists_wide_record 999 (by decide)
  have hmany : ¬ record.length < levelLimit := by
    rw [hlength]
    decide
  exact ⟨record, id, s', hperform, hget, hidentifies.listed.exceeds hmany,
    hidentifies.upserted.exceeds hmany⟩

end Session

end RecordStore
