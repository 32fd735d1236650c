import RecordStore.Proofs.Session.Agreement
import RecordStore.Proofs.Query.Demands

/-!
# Pages

A listing with a page and its size is the listing without them, cut at the rows that the window
shows. The rows to skip are counted in a word and then in a signed word, and both counts stop at
their largest value. No list is so long that it would show there, so that the pages, one after
another, give the whole listing, each record once. The two counts are parameters: where a filter
leaves no room for them, the whole listing is shown and no page of it is.
-/

namespace RecordStore

/-! ## Windows -/

theorem clampCount_toInt (n : Nat) : (clampCount n).toInt = (min n maxInt64 : Nat) := by
  have hmax : min n maxInt64 ≤ maxInt64 := Nat.min_le_right n maxInt64
  unfold maxInt64 at hmax
  exact Int64.toInt_ofNat_of_lt (by unfold maxInt64; omega)

namespace Listing

variable {filter sort : Option Json} {page size : Nat}

theorem window_of_page (hpage : page ≠ 0) (hsize : size ≠ 0) :
    (⟨filter, sort, some page, some size⟩ : Listing).window =
      .ok (some ⟨min ((page - 1) * size) maxWord, size⟩) := by
  simp only [window, if_neg hpage, if_neg hsize]

/-- Pages and sizes that count from one are required. -/
theorem window_of_zero (h : page = 0 ∨ size = 0) :
    (⟨filter, sort, some page, some size⟩ : Listing).window =
      .error (if page = 0 then .pageZero else .pageSizeZero) := by
  by_cases hpage : page = 0
  · simp only [window, if_pos hpage]
  · simp only [window, if_neg hpage, if_pos (h.resolve_left hpage)]

end Listing

/-- Where both counts of a window stop, no list goes on. -/
theorem Window.show_toRows {α : Type} (list : List α) (hlength : list.length ≤ maxInt64)
    {page size : Nat} (hpage : page ≠ 0) :
    RowWindow.show (some (Window.toRows ⟨min ((page - 1) * size) maxWord, size⟩)) list =
      list.extract ((page - 1) * size) (page * size) := by
  obtain ⟨before, rfl⟩ := Nat.exists_eq_succ_of_ne_zero hpage
  have hstop : (before + 1) * size - before * size = size := by
    rw [Nat.add_mul, Nat.one_mul, Nat.add_sub_cancel_left]
  simp only [RowWindow.show, toRows, clampCount_toInt, Int.toNat_natCast, Nat.succ_eq_add_one,
    Nat.add_sub_cancel, List.extract_eq_take_drop, hstop]
  have hword : maxInt64 ≤ maxWord := by decide
  by_cases hbefore : before * size ≤ maxInt64
  · rw [Nat.min_eq_left (Nat.le_trans hbefore hword), Nat.min_eq_left hbefore]
    by_cases hsize : size ≤ maxInt64
    · rw [Nat.min_eq_left hsize]
    · have hrest : (list.drop (before * size)).length ≤ maxInt64 := by
        rw [List.length_drop]
        omega
      have hlarge : maxInt64 ≤ size := Nat.le_of_not_le hsize
      rw [Nat.min_eq_right hlarge, List.take_of_length_le hrest,
        List.take_of_length_le (Nat.le_trans hrest hlarge)]
  · have hlarge := Nat.le_of_not_le hbefore
    have hsaturated : min (min (before * size) maxWord) maxInt64 = maxInt64 :=
      Nat.min_eq_right (Nat.le_min.mpr ⟨hlarge, hword⟩)
    rw [hsaturated, List.drop_of_length_le hlength,
      List.drop_of_length_le (Nat.le_trans hlength hlarge), List.take_nil, List.take_nil]

/-- Pieces of one size, enough of them, make up the list. -/
theorem flatten_extract {α : Type} (list : List α) (size : Nat) {count : Nat}
    (h : list.length ≤ count * size) :
    ((List.range count).map fun i => list.extract (i * size) ((i + 1) * size)).flatten = list := by
  have hbefore : ∀ n, ((List.range n).map fun i =>
      list.extract (i * size) ((i + 1) * size)).flatten = list.take (n * size) := by
    intro n
    induction n with
    | zero => simp
    | succ n ih =>
      have hstop : (n + 1) * size - n * size = size := by
        rw [Nat.add_mul, Nat.one_mul, Nat.add_sub_cancel_left]
      rw [List.range_succ, List.map_append, List.flatten_append, ih, List.map_singleton,
        List.flatten_singleton, List.extract_eq_take_drop, hstop, Nat.add_mul, Nat.one_mul,
        List.take_add]
  rw [hbefore, List.take_of_length_le h]

/-! ## Statements of listings -/

namespace Model

/-- The statement that a listing stands for. -/
def statement (m : Model) (listing : Listing) : Except QueryError Select := do
  let filter ← listing.filterTree
  let keys ← listing.sortKeys
  let window ← listing.window
  m.select filter keys window

theorem planOn_listing (m : Model) (name : String) (listing : Listing) :
    (Operation.list name listing).planOn m = ((m.statement listing).map fun s =>
      (⟨.read, .records <$> m.fetch .fetchingRecords s⟩ : Plan)).mapError .query := by
  simp only [Operation.planOn, statement]
  cases listing.filterTree with
  | error e => rfl
  | ok filter =>
    cases listing.sortKeys with
    | error e => rfl
    | ok keys =>
      cases listing.window with
      | error e => rfl
      | ok window =>
        simp only [mapError_ok, ok_bind]
        cases m.select filter keys window <;> rfl

/-- Without keys and a page the statement selects the rows that meet the filter. -/
theorem statement_of_conditionFor (m : Model) {filter : Option Json} {condition : Option Clause}
    (h : m.conditionFor filter = .ok condition) :
    m.statement ⟨filter, none, none, none⟩ = .ok (m.selectWhere condition none) := by
  obtain ⟨tree, htree, hcondition⟩ := bind_eq_ok.mp h
  have hfilter : Listing.filterTree ⟨filter, none, none, none⟩ = .ok tree := htree
  simp only [statement, hfilter, Listing.sortKeys, Listing.window, select, hcondition, ok_bind]
  rfl

/-- A window is the only thing that a page adds to the statement. -/
theorem statement_of_page (m : Model) {filter sort : Option Json} {page size : Nat}
    (hpage : page ≠ 0) (hsize : size ≠ 0) {st : Select}
    (h : m.statement ⟨filter, sort, none, none⟩ = .ok st) :
    m.statement ⟨filter, sort, some page, some size⟩ = .ok { st with
      window := some (Window.toRows ⟨min ((page - 1) * size) maxWord, size⟩) } ∧
      st.window = none := by
  simp only [statement, bind_eq_ok] at h ⊢
  obtain ⟨tree, htree, keys, hkeys, window, hwindow, hselect⟩ := h
  cases hwindow
  simp only [select, bind_eq_ok, Except.ok.injEq] at hselect
  obtain ⟨condition, hcondition, order, horder, rfl⟩ := hselect
  refine ⟨⟨tree, htree, keys, hkeys, _, Listing.window_of_page hpage hsize, ?_⟩, rfl⟩
  simp only [select, hcondition, horder, ok_bind, Option.map_some]

theorem statement_of_zero (m : Model) (filter sort : Option Json) {page size : Nat}
    (h : page = 0 ∨ size = 0) : ∃ e, m.statement ⟨filter, sort, some page, some size⟩ = .error e := by
  have hwindow : Listing.window ⟨filter, sort, some page, some size⟩ =
      .error (if page = 0 then .pageZero else .pageSizeZero) := Listing.window_of_zero h
  simp only [statement, bind_eq_error]
  cases Listing.filterTree ⟨filter, sort, some page, some size⟩ with
  | error e => exact ⟨e, .inl rfl⟩
  | ok tree =>
    cases Listing.sortKeys ⟨filter, sort, some page, some size⟩ with
    | error e => exact ⟨e, .inr ⟨tree, rfl, .inl rfl⟩⟩
    | ok keys => exact ⟨_, .inr ⟨tree, rfl, .inr ⟨keys, rfl, .inl hwindow⟩⟩⟩

/-- The last two parameters of a statement with a window are its counts. -/
theorem params_of_statement {m : Model} {listing : Listing} {st : Select}
    (h : m.statement listing = .ok st) : st.window = none ∨ ∃ earlier limit offset,
      st.window = some ⟨limit, offset⟩ ∧ 0 ≤ limit ∧ 0 ≤ offset ∧
        Piece.params st.pieces = earlier ++ [.integer limit, .integer offset] := by
  simp only [statement, select, bind_eq_ok, Except.ok.injEq] at h
  obtain ⟨tree, _, keys, _, window, _, condition, _, order, _, rfl⟩ := h
  cases window with
  | none => exact .inl rfl
  | some window =>
    have hcount (n : Nat) : 0 ≤ clampCount n := by
      rw [Int64.le_iff_toInt_le, clampCount_toInt]
      exact Int.natCast_nonneg _
    refine .inr ⟨Piece.params (Select.pieces ⟨m.tableName, m.columns.map Column.name, condition,
      order, none⟩), _, _, rfl, hcount window.limit, hcount window.offset, ?_⟩
    simp only [Select.pieces, Option.map_some, Piece.params, List.filterMap_append,
      List.append_nil]
    rfl

end Model

/-- A window cuts the rows that the statement reads without it. -/
theorem Database.select_window {db : Database} {st : Select} {rows : List (List SqlValue)}
    (hnone : st.window = none) (h : db.select st = .ok rows) {window : Option RowWindow}
    (hfits : Select.Fits { st with window := window }) :
    db.select { st with window := window } = .ok (RowWindow.show window rows) := by
  obtain ⟨_, t, sorted, ht, hsorted, rfl⟩ := select_eq_ok.mp h
  refine select_eq_ok.mpr ⟨hfits, t, sorted, ht, hsorted, ?_⟩
  rw [hnone]
  cases window with
  | none => rfl
  | some window => simp only [RowWindow.show, List.map_take, List.map_drop]

theorem RowWindow.show_map {α β : Type} (f : α → β) (window : Option RowWindow) (list : List α) :
    RowWindow.show window (list.map f) = (RowWindow.show window list).map f := by
  cases window with
  | none => rfl
  | some window => simp only [RowWindow.show, List.map_take, List.map_drop]

namespace Session

variable {s : Session} {name : String} {listing : Listing}

/-- A listing answers the records of the rows that its statement reads from the database of its
connection. -/
theorem answer_list_eq_ok {answer : Answer} : s.answer (.list name listing) = .ok answer ↔
    ∃ m st db rows, s.registry.get name = .ok m ∧ m.statement listing = .ok st ∧
      s.databaseOf? (s.connectionOf m .read) = some db ∧ db.select st = .ok rows ∧
        answer = .records (rows.map m.decode) := by
  constructor
  · intro h
    unfold Session.answer at h
    split at h
    next found s' hrun =>
      cases h
      obtain ⟨m, plan, handle, db, db', hplan, hleads, haction, _, _⟩ := perform_eq_ok hrun
      obtain ⟨hget, hplanOn⟩ := plan_eq_ok hplan
      rw [m.planOn_listing, mapError_eq_ok, map_eq_ok] at hplanOn
      obtain ⟨st, hst, rfl⟩ := hplanOn
      obtain ⟨records, hfetch, rfl⟩ := runMap_eq_ok.mp haction
      obtain ⟨rows, db₁, hread, hpure⟩ := runBind_eq_ok.mp hfetch
      obtain ⟨hrows, rfl⟩ := Action.read_eq_ok.mp hread
      cases hpure
      exact ⟨m, st, _, rows, hget, hst, hleads.databaseOf, hrows, rfl⟩
    · cases h
  · rintro ⟨m, st, db, rows, hget, hst, hdb, hrows, rfl⟩
    obtain ⟨handle, hleads⟩ := databaseOf?_eq_some.mp hdb
    have hplan : (Operation.list name listing).plan s.registry =
        .ok (m, ⟨.read, .records <$> m.fetch .fetchingRecords st⟩) := by
      rw [plan_of_get (.list name listing) hget, m.planOn_listing, hst]
      rfl
    have hfetch : m.fetch .fetchingRecords st db = .ok (rows.map m.decode) db :=
      runBind_eq_ok.mpr ⟨rows, db, Action.read_eq_ok.mpr ⟨hrows, rfl⟩, rfl⟩
    simp only [Session.answer, perform_of_plan hplan, run_of_leads hleads,
      runMap_eq_ok.mpr ⟨_, hfetch, rfl⟩]

/-- A page or a size of zero is refused, whatever else the listing asks for. -/
theorem perform_list_of_zero (s : Session) (name : String) (filter sort : Option Json)
    {page size : Nat} (h : page = 0 ∨ size = 0) :
    ∃ e, perform (.list name ⟨filter, sort, some page, some size⟩) s = .error (.query e) s := by
  cases hget : s.registry.get name with
  | error e =>
    refine ⟨e, perform_of_fault ?_⟩
    simp only [Operation.plan, Operation.model, hget, mapError_error, error_bind]
  | ok m =>
    obtain ⟨e, he⟩ := m.statement_of_zero filter sort h
    refine ⟨e, perform_of_refused (.list name _) hget ?_⟩
    rw [m.planOn_listing, he]
    rfl

/-- The answer of a listing with a page. -/
def page (s : Session) (name : String) (filter sort : Option Json) (page size : Nat) :
    Except StoreError Answer := s.answer (.list name ⟨filter, sort, some page, some size⟩)

section
variable {filter sort : Option Json} {records : List Record} {number size : Nat} {m : Model}
variable {st : Select}

theorem page_eq (h : s.answer (.list name ⟨filter, sort, none, none⟩) = .ok (.records records))
    (hget : s.registry.get name = .ok m) (hst : m.statement ⟨filter, sort, none, none⟩ = .ok st)
    (hroom : (Piece.params st.pieces).length + 2 ≤ parameterLimit)
    (hlength : records.length ≤ maxInt64) (hnumber : number ≠ 0) (hsize : size ≠ 0) :
    s.page name filter sort number size =
      .ok (.records (records.extract ((number - 1) * size) (number * size))) := by
  obtain ⟨m', st', db, rows, hget', hst', hdb, hrows, hrecords⟩ :=
    answer_list_eq_ok.mp h
  cases hrecords
  cases hget.symm.trans hget'
  cases hst.symm.trans hst'
  obtain ⟨hpage, hnone⟩ := m.statement_of_page hnumber hsize hst
  have hfits := fun window =>
    (Select.fits_window_iff hnone (Database.select_eq_ok.mp hrows).1 window).mpr hroom
  refine answer_list_eq_ok.mpr ⟨m, _, db, _, hget, hpage, hdb,
    Database.select_window hnone hrows (hfits _), ?_⟩
  rw [← RowWindow.show_map, Window.show_toRows _ hlength hnumber]

/-- A listing whose statement is beyond the limits is refused. -/
theorem list_exceeds (hget : s.registry.get name = .ok m) (hst : m.statement listing = .ok st)
    {db : Database} (hdb : s.databaseOf? (s.connectionOf m .read) = some db) {t : Table}
    (ht : db.table? st.table = some t)
    (hfits : ¬ st.Fits) : s.Exceeds (.list name listing) := by
  obtain ⟨cause, hlimit, hrefused⟩ := Database.select_exceeds ht hfits
  have hplan : (Operation.list name listing).plan s.registry =
      .ok (m, ⟨.read, .records <$> m.fetch .fetchingRecords st⟩) := by
    rw [plan_of_get (.list name listing) hget, m.planOn_listing, hst]
    rfl
  have hfetch : m.fetch .fetchingRecords st db =
      .error (.operation (.failed .fetchingRecords cause)) db :=
    runBind_eq_error.mpr (.inl (Action.read_eq_error.mpr ⟨cause, hrefused, rfl, rfl⟩))
  obtain ⟨handle, hleads⟩ := databaseOf?_eq_some.mp hdb
  refine ⟨.fetchingRecords, cause, s.setDatabaseAt db handle, hlimit, ?_,
    setDatabaseAt_sameData hleads.database⟩
  simp only [perform_of_plan hplan, run_of_leads hleads, runMap_eq_error.mpr hfetch]

/-- Without room for the counts of the window every page is refused. -/
theorem page_exceeds (h : s.answer (.list name ⟨filter, sort, none, none⟩) = .ok (.records records))
    (hget : s.registry.get name = .ok m) (hst : m.statement ⟨filter, sort, none, none⟩ = .ok st)
    (hroom : ¬ (Piece.params st.pieces).length + 2 ≤ parameterLimit) (hnumber : number ≠ 0)
    (hsize : size ≠ 0) : s.Exceeds (.list name ⟨filter, sort, some number, some size⟩) := by
  obtain ⟨m', st', db, rows, hget', hst', hdb, hrows, _⟩ := answer_list_eq_ok.mp h
  cases hget.symm.trans hget'
  cases hst.symm.trans hst'
  obtain ⟨hpage, hnone⟩ := m.statement_of_page hnumber hsize hst
  obtain ⟨hfitting, t, _, ht, _⟩ := Database.select_eq_ok.mp hrows
  exact list_exceeds hget hpage hdb ht
    (mt (Select.fits_window_iff hnone hfitting _).mp hroom)

end

/-- Where a listing succeeds without a page, there is room for two more parameters in its statement,
or every page is refused. If there is room, every page shows the records at its positions, and the
pages up to any that reaches the end make up the listing. The answer is a list in memory, and there no
list is longer than `2^63 - 1`; pages, sizes and positions have no bound. A page or a size of zero is
refused, and the counts that a statement carries are never negative. -/
theorem pages_partition (s : Session) (name : String) (filter sort : Option Json) :
    (∀ records, s.answer (.list name ⟨filter, sort, none, none⟩) = .ok (.records records) →
      records.length ≤ maxInt64 → ∃ m st, s.registry.get name = .ok m ∧
        m.statement ⟨filter, sort, none, none⟩ = .ok st ∧
        (¬ (Piece.params st.pieces).length + 2 ≤ parameterLimit → ∀ number size, number ≠ 0 →
          size ≠ 0 → s.Exceeds (.list name ⟨filter, sort, some number, some size⟩)) ∧
        ((Piece.params st.pieces).length + 2 ≤ parameterLimit → ∀ size, size ≠ 0 →
          (∀ number, number ≠ 0 → s.page name filter sort number size =
            .ok (.records (records.extract ((number - 1) * size) (number * size)))) ∧
          ∀ count, records.length ≤ count * size → ∃ pages : List (List Record),
            pages.flatten = records ∧ ((List.range count).map fun i =>
              s.page name filter sort (i + 1) size) = pages.map fun page => .ok (.records page))) ∧
    (∀ number size, number = 0 ∨ size = 0 → ∃ e,
      perform (.list name ⟨filter, sort, some number, some size⟩) s = .error (.query e) s) ∧
    ∀ (m : Model) (listing : Listing) st, m.statement listing = .ok st →
      st.window = none ∨ ∃ earlier limit offset, st.window = some ⟨limit, offset⟩ ∧
        0 ≤ limit ∧ 0 ≤ offset ∧
          Piece.params st.pieces = earlier ++ [.integer limit, .integer offset] := by
  refine ⟨fun records h hlength => ?_, fun number size h => s.perform_list_of_zero name filter sort h,
    fun m listing st h => Model.params_of_statement h⟩
  obtain ⟨m, st, _, _, hget, hst, _⟩ := answer_list_eq_ok.mp h
  refine ⟨m, st, hget, hst, fun hroom number size hnumber hsize =>
    page_exceeds h hget hst hroom hnumber hsize, fun hroom size hsize => ⟨fun number hnumber =>
      page_eq h hget hst hroom hlength hnumber hsize, fun count hcount =>
      ⟨_, flatten_extract records size hcount, ?_⟩⟩⟩
  rw [List.map_map]
  exact List.map_congr_left fun i _ => page_eq h hget hst hroom hlength i.succ_ne_zero hsize

/-- Three persons on pages of two: the second page shows the third, the two pages together show all
three, and one page of the largest size does so as well. -/
theorem pages_of_persons :
    let s := personSession.after (.operation (.createAll "Person"
      [[("name", .string "Ann")], [("name", .string "Bob")], [("name", .string "Cid")]]))
    ∃ ann bob cid, s.page "Person" none none 2 2 = .ok (.records [cid]) ∧
      s.page "Person" none none 1 maxWord = .ok (.records [ann, bob, cid]) ∧
      (∃ pages : List (List Record), pages.flatten = [ann, bob, cid] ∧
        ((List.range 2).map fun i => s.page "Person" none none (i + 1) 2) =
          pages.map fun page => .ok (.records page)) ∧
      ∃ e, perform (.list "Person" ⟨none, none, some 1, some 0⟩) s = .error (.query e) s := by
  intro s
  have hpages := pages_partition s "Person" none none
  obtain ⟨ann, bob, cid, hall⟩ : ∃ ann bob cid, s.answer (.list "Person" ⟨none, none, none, none⟩) =
      .ok (.records [ann, bob, cid]) := ⟨_, _, _, rfl⟩
  obtain ⟨m, st, hget, hst, _, hshown⟩ := hpages.1 _ hall (by simp [maxInt64])
  cases hget
  cases hst
  have htwo := hshown (by decide) 2 (by decide)
  have hlarge := hshown (by decide) maxWord (by decide)
  exact ⟨ann, bob, cid, htwo.1 2 (by decide), hlarge.1 1 (by decide), htwo.2 2 (by simp),
    hpages.2.1 1 0 (.inr rfl)⟩

theorem params_manyKeys (n : Nat) :
    (Piece.params (uniquePerson.selectWhere (some (manyKeysClause n)) none).pieces).length = n := by
  rw [← Select.count_demands]
  show ((manyKeysClause n).demands 5 ++ []).count Demand.parameter = n
  rw [List.append_nil, Clause.count_demands, manyKeysClause, Clause.params_oneOf,
    List.length_replicate]

/-- The persons who have one of so many keys that there is no room for the counts of a window: they
are listed, and their first page is not. -/
theorem page_of_manyKeys_refused :
    personSession.answer (.list "Person" ⟨some (manyKeys 32765), none, none, none⟩) =
        .ok (.records []) ∧
      personSession.Exceeds (.list "Person" ⟨some (manyKeys 32765), none, some 1, some 1⟩) := by
  have hlist := answer_manyKeys (n := 32765) (by decide) (by decide)
  have hst := uniquePerson.statement_of_conditionFor (conditionFor_manyKeys (n := 32765) (by decide))
  refine ⟨hlist, page_exceeds hlist rfl hst ?_ (by decide) (by decide)⟩
  rw [params_manyKeys]
  decide

end Session

end RecordStore
