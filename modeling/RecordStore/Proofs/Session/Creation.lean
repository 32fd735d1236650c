import RecordStore.Proofs.Session.Lookup
import RecordStore.Proofs.Session.Typing
import RecordStore.Proofs.Session.Remembering
import RecordStore.Proofs.Model.Creation
import RecordStore.Proofs.Model.Members

/-!
# Creating a record is exact

In a serving session a creation succeeds exactly if the model takes the record and the table has a
key and room for it. Then one record is added and nothing else changes: the one that the creation
answers with, that is read by its key afterwards, and that shows what was given. Otherwise nothing
changes, and the error says which of the conditions failed.
-/

namespace RecordStore

namespace Model

variable {m : Model} {t : Table} {record : Record} {all : List Record} {held : Int64 → Prop}

/-- A member of a record to create is the key with an integer of 64 bits, or a field with a value
that it encodes. -/
def Takes (m : Model) (member : String × Json) : Prop :=
  (member.1 = primaryKey ∧ ∃ id, member.2.toInt64? = some id) ∨
    ∃ f ∈ m.fields, member.1 = f.name ∧ ∃ cell, f.encode member.2 = .ok cell

/-- What a creation needs of a record, of all records that there are, and of the keys that were ever
held. -/
structure Creatable (m : Model) (held : Int64 → Prop) (all : List Record) (record : Record) :
    Prop where
  takes : ∀ member ∈ record, m.Takes member
  present : ¬ m.Missing record
  apart : ¬ m.Collides all record
  key : ¬ Exhausted held record

/-- Why a creation is refused, with its error. -/
inductive CreationRefused (m : Model) (held : Int64 → Prop) (all : List Record) (record : Record) :
    StoreError → Prop
  | rejected {cause : ValidationError} (h : m.encode true record = .error cause)
      (hnot : ¬ ∀ member ∈ record, m.Takes member) :
      CreationRefused m held all record (.validation cause)
  | exhausted (ht : ∀ member ∈ record, m.Takes member) (h : Exhausted held record) :
      CreationRefused m held all record (.operation (.failed .creatingRecord .full))
  | violated (ht : ∀ member ∈ record, m.Takes member) (hkey : ¬ Exhausted held record)
      (h : m.Missing record ∨ m.Collides all record) :
      CreationRefused m held all record (.operation .integrity)

theorem CreationRefused.not_creatable {e : StoreError} (h : m.CreationRefused held all record e) :
    ¬ m.Creatable held all record := by
  intro hc
  cases h with
  | rejected _ hnot => exact hnot hc.takes
  | exhausted _ h => exact hc.key h
  | violated _ _ h => exact h.elim hc.present hc.apart

/-- A member is encoded exactly if the model takes it. -/
theorem OwnTable.encodeMember_isOk_iff (ht : m.OwnTable t) {name : String} {value : Json} :
    (∃ entry, m.encodeMember true name value = .ok entry) ↔ m.Takes (name, value) := by
  constructor
  · rintro ⟨entry, hencode⟩
    unfold encodeMember at hencode
    split at hencode
    next hcolumn =>
      split at hencode
      · split at hencode
        next id hid => exact .inl ⟨(column?_name hcolumn).2.symm, id, hid⟩
        next => cases hencode
      · cases hencode
    next f hcolumn =>
      obtain ⟨cell, hcell, _⟩ := map_eq_ok.mp hencode
      obtain ⟨hmem, hname⟩ := column?_name hcolumn
      refine .inr ⟨f, ?_, hname.symm, cell, hcell⟩
      rcases List.mem_cons.mp hmem with heq | hfield
      · cases heq
      · obtain ⟨other, hother, heq⟩ := List.mem_map.mp hfield
        cases heq
        exact hother
    next => cases hencode
  · rintro (⟨rfl, id, hid⟩ | ⟨f, hf, rfl, cell, hcell⟩)
    · have hcolumn : m.column? primaryKey = some .id := ht.column?_of_mem List.mem_cons_self
      refine ⟨(primaryKey, .integer id), ?_⟩
      simp only [encodeMember, hcolumn, if_true, hid]
    · have hmem : Column.field f ∈ m.columns := List.mem_cons_of_mem _ (List.mem_map_of_mem hf)
      have hcolumn : m.column? f.name = some (.field f) := ht.column?_of_mem hmem
      refine ⟨(f.name, cell), ?_⟩
      simp only [encodeMember, hcolumn, hcell, map_ok]

/-- A record is encoded exactly if the model takes all its members. -/
theorem OwnTable.encode_isOk_iff (ht : m.OwnTable t) :
    (∃ cells, m.encode true record = .ok cells) ↔ ∀ member ∈ record, m.Takes member := by
  constructor
  · rintro ⟨cells, hc⟩ member hmember
    obtain ⟨entry, _, hentry⟩ := exists_of_mapM hc hmember
    exact ht.encodeMember_isOk_iff.mp ⟨entry, hentry⟩
  · exact fun h => mapM_isOk fun member hmember => ht.encodeMember_isOk_iff.mpr (h member hmember)

end Model

namespace Session

variable {s s' : Session} {m : Model} {held : Model → Int64 → Prop} {db : Database} {t t' : Table}
variable {record : Record} {all : List Record}

/-- What the creation of a record does in a session, given all records of the model and the keys that
were ever held. -/
structure Creates (s : Session) (m : Model) (held : Int64 → Prop) (all : List Record)
    (record : Record) : Prop where
  succeeds : (∃ answer s', perform (.create m.name record) s = .ok answer s') ↔
    m.Creatable held all record
  /-- One record is added, which is answered, and read by its key afterwards. -/
  created : ∀ answer s', perform (.create m.name record) s = .ok answer s' → ∃ id before after,
    answer = .record (m.newRecord record id) ∧ all = before ++ after ∧
      s.Leaves m (.create m.name record) answer (before ++ m.newRecord record id :: after) ∧
      s'.answer (.get m.name id) = .ok (.record (m.newRecord record id)) ∧
      ∀ given, Model.keyOf record = .ok given → id = given
  /-- It shows what was given, or defaults, or `null`. -/
  shown : ∀ created s', perform (.create m.name record) s = .ok (.record created) s' →
    ∀ f ∈ m.fields, ∃ value, Json.member? created f.name = some value ∧ f.Shows record value
  refused : ∀ e s', perform (.create m.name record) s = .error e s' →
    s.SameData s' ∧ m.CreationRefused held all record e

theorem creates_of_refused {held : Int64 → Prop} {e : StoreError}
    (hperform : perform (.create m.name record) s = .error e s') (hsame : s.SameData s')
    (h : m.CreationRefused held all record e) : s.Creates m held all record where
  succeeds := by
    refine iff_of_false ?_ h.not_creatable
    rintro ⟨answer, s'', hok⟩
    cases hok.symm.trans hperform
  created _ _ hok := nomatch hok.symm.trans hperform
  shown _ _ hok := nomatch hok.symm.trans hperform
  refused e' s'' herror := by
    cases herror.symm.trans hperform
    exact ⟨hsame, h⟩

namespace Offers

variable (h : s.Offers m db t)
include h

/-- The record of a new row is answered, and read by its key afterwards. -/
theorem created (hd : DistinctTables s.registry.models) {cells : List (String × SqlValue)}
    (hc : m.encode true record = .ok cells) (hfit : Fit (m.insert cells).demands) {id : Int64}
    (hinsert : t.insert m.tableName cells = .ok (t', id)) : ∃ s' before after,
      perform (.create m.name record) s = .ok (.record (m.newRecord record id)) s' ∧
      t.rows.map m.recordOf = before ++ after ∧
      s.Leaves m (.create m.name record) (.record (m.newRecord record id))
        (before ++ m.newRecord record id :: after) ∧
      s'.answer (.get m.name id) = .ok (.record (m.newRecord record id)) := by
  have hrecord := h.own.recordOf_new hc id
  have hown : m.OwnTable t' := .inserted h.own hinsert
  have hname := (Table.insert_name hinsert).1
  have hperform := h.create_eq_ok hc hfit hinsert
  have hleaves := h.leaves hd rfl hperform hname hown
  have hfetch := Model.fetchById_of_new h.own h.table .fetchingRecord hinsert
  obtain ⟨before, after, hold, hnew⟩ := Table.insertRow_split ⟨id, t.newCells cells⟩ t.rows
  rw [(Table.insert_eq_ok hinsert).2, hnew, List.map_append, List.map_cons, hrecord] at hleaves
  rw [hrecord] at hperform hfetch
  refine ⟨_, _, _, hperform, by rw [hold, List.map_append], hleaves, ?_⟩
  exact (h.setTable hname hown).answer_eq_ok rfl rfl (runMap_eq_ok.mpr ⟨_, hfetch, rfl⟩)

theorem creates (hd : DistinctTables s.registry.models) (hfilled : m.Filled Json.Proper t)
    {held : Int64 → Prop} (hcounts : t.Counts held) (hdefaults : m.GoodDefaults Json.Proper)
    (hk : Json.DistinctKeys record) (hg : m.Admits Json.Proper record) :
    s.Creates m held (t.rows.map m.recordOf) record := by
  have hsame := setDatabase_sameData h.database
  have htakes : (∃ cells, m.encode true record = .ok cells) ↔ _ := h.own.encode_isOk_iff
  cases hc : m.encode true record with
  | error cause =>
    have hplan : (Operation.create m.name record).planOn m = .error (.validation cause) := by
      simp only [Operation.planOn, Operation.cellsOf, hc, mapError_error, error_bind]
    refine creates_of_refused (perform_of_refused (.create m.name record) h.get hplan) (.refl _)
      (.rejected hc fun htake => ?_)
    obtain ⟨cells, hok⟩ := htakes.mpr htake
    cases hok.symm.trans hc
  | ok cells =>
    have htake := htakes.mp ⟨cells, hc⟩
    have hfit : Fit (m.insert cells).demands := Model.fit_insert_of_encode h.own.narrow hk hc
    rcases Model.insert_cases hfilled hcounts hdefaults hk hg hc with
      ⟨hlack, hinsert⟩ | ⟨hkey, hviolated, cause, hconstraint, hinsert⟩ |
        ⟨hkey, hpresent, hapart, t', id, hinsert⟩
    · exact creates_of_refused (h.create_eq_error hc hfit hinsert) hsame (.exhausted htake hlack)
    · have hperform := h.create_eq_error hc hfit hinsert
      rw [Model.creationError, if_pos hconstraint] at hperform
      exact creates_of_refused hperform hsame (.violated htake hkey hviolated)
    · obtain ⟨s', before, after, hperform, hall, hleaves, hget⟩ := h.created hd hc hfit hinsert
      refine ⟨iff_of_true ⟨_, _, hperform⟩ ⟨htake, hpresent, hapart, hkey⟩, ?_, ?_, ?_⟩
      · intro answer s'' hok
        cases hok.symm.trans hperform
        refine ⟨id, before, after, rfl, hall, hleaves, hget, fun given hgiven => ?_⟩
        have hid := (Table.insert_eq_ok hinsert).1
        cases hmember : Json.member? record primaryKey with
        | none =>
          rw [Model.keyOf, hmember] at hgiven
          cases hgiven
        | some value =>
          obtain ⟨id', hvalue, hid'⟩ := h.own.newId_of_some hc hk hmember
          rw [Model.keyOf, hmember, Option.bind_some, hvalue] at hgiven
          cases hid.symm.trans hid'
          exact Except.ok.inj hgiven
      · intro created s'' hok f hf
        cases hok.symm.trans hperform
        have hcolumn := h.own.column?_of_mem (List.mem_cons_of_mem _ (List.mem_map_of_mem hf))
        exact ⟨_, Model.member?_newRecord hcolumn id, h.own.shows_newValue hc hdefaults hg hf⟩
      · intro e s'' herror
        cases herror.symm.trans hperform

end Offers

/-- In a serving session that is open and whose connections reach the same database, a creation does
exactly what it says. -/
theorem create_exact (h : Remembers Json.Proper s held) (hopen : s.isClosed = false)
    (hj : s.Joint) (hr : s.router.Connected) (hm : m ∈ s.registry.models)
    (hk : Json.DistinctKeys record)
    (hg : m.Admits Json.Proper record) :
    ∃ all, s.everythingOf m.name = .ok (.records all) ∧ s.Creates m (held m) all record := by
  have hserved := h.serving.served
  obtain ⟨db, t, hoffers, _⟩ := h.serving.offers hopen hj hr hm
  obtain ⟨u, hu, hfilled, hcounts⟩ := h.table hoffers.database hm
  cases hu.symm.trans hoffers.table
  exact ⟨_, hoffers.everythingOf,
    hoffers.creates hserved.distinct hfilled hcounts (hserved.defaults m hm) hk hg⟩

/-- A game with a score that no double equals: it is created, it is read by its key, and it shows a
double next to the score. A game without a player is refused. -/
theorem create_uneven_game : ∃ id s' x,
    let created := gameModel.newRecord [("player", .string "Ann"), ("score", .number uneven)] id
    perform (.create "Game" [("player", .string "Ann"), ("score", .number uneven)]) gameSession =
      .ok (.record created) s' ∧
    s'.answer (.get "Game" id) = .ok (.record created) ∧
    Json.member? created "score" = some (.number (.float x)) ∧ x.Nearest uneven.value ∧
    ∃ s'', perform (.create "Game" [("score", .number uneven)]) gameSession =
      .error (.operation .integrity) s'' ∧ gameSession.SameData s'' := by
  obtain ⟨held, hremembers⟩ := (serving_gameSession Json.Proper).remembers
  have hexact {record : Record} (hk : Json.DistinctKeys record)
      (hg : gameModel.Admits Json.Proper record) :
      ∃ all, _ ∧ gameSession.Creates gameModel _ all record :=
    create_exact hremembers rfl rfl Router.connected_default List.mem_cons_self hk hg
  have hwhole : Json.DistinctKeys [("player", .string "Ann"), ("score", .number uneven)] := by decide
  have hpart : Json.DistinctKeys [("score", .number uneven)] := by decide
  obtain ⟨_, _, hcreates⟩ := hexact hwhole (by decide)
  obtain ⟨_, _, hcreates'⟩ := hexact hpart (by decide)
  obtain ⟨answer, s', hperform⟩ : ∃ answer s', perform (.create gameModel.name
      [("player", .string "Ann"), ("score", .number uneven)]) gameSession = .ok answer s' :=
    ⟨_, _, rfl⟩
  obtain ⟨s'', hrefused⟩ : ∃ s'', perform (.create gameModel.name [("score", .number uneven)])
      gameSession = .error (.operation .integrity) s'' := ⟨_, rfl⟩
  obtain ⟨id, _, _, rfl, _, _, hget, _⟩ := hcreates.created _ _ hperform
  have hscore : (⟨"score", .float, true, false, none⟩ : Field) ∈ gameModel.fields := by decide
  obtain ⟨value, hmember, x, _, rfl, hnearest⟩ := hcreates.shown _ _ hperform _ hscore
  have hvalue : x.normalized.Nearest uneven.value := by
    intro y
    rw [Binary64.value_normalized]
    exact hnearest y
  exact ⟨id, s', x.normalized, hperform, hget, hmember, hvalue, s'', hrefused,
    (hcreates'.refused _ _ hrefused).1⟩

end Session

end RecordStore
