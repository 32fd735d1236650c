import RecordStore.Proofs.Session.Opening

/-!
# Failed operations

An operation or a command that fails leaves all data as they were, with one exception. A creation adds
its row in a statement of its own and reads it back in another. A model may have more columns than the
database reads at once, if its table was made for another model, and then the row stays while the
creation fails.
-/

namespace RecordStore

namespace Session

variable {s s' : Session}

/-- What a creation says whose row is there but has too many columns to be read. -/
def unread : StoreError :=
  .operation (.failed .creatingRecord (.tooManyTerms "columns in result set"))

/-- A creation adds its row to the database of its connection and fails then, since the row cannot be
read. -/
structure AddsUnread (s : Session) (op : Operation) (e : StoreError) (s' : Session) : Prop where
  said : e = unread
  added : ∃ m record cells handle db db' id, op = .create m.name record ∧
    s.registry.get m.name = .ok m ∧ ¬ m.Narrow ∧ m.encode true record = .ok cells ∧
    s.Leads (s.connectionOf m .write) handle db ∧ db.insert (m.insert cells) = .ok (db', id) ∧
    s' = s.setDatabaseAt db' handle

/-- An operation that fails changes no data or adds a row that it cannot read. -/
theorem perform_sameData_or_unread (hs : s.Proper) (hr : s.registry.Proper) {op : Operation}
    {e : StoreError} (h : perform op s = .error e s') : s.SameData s' ∨ s.AddsUnread op e s' := by
  rcases perform_eq_error hs h with
    rfl | ⟨m, plan, handle, db, db', hplan, hleads, haction, _, hsame, rfl⟩
  · exact .inl (.refl _)
  obtain ⟨hget, hplanOn⟩ := plan_eq_ok hplan
  have hkept (heq : db' = db) : s.SameData (s.setDatabaseAt db' handle) :=
    heq ▸ setDatabaseAt_sameData hleads.database
  by_cases hop : ∀ name record, op = .create name record → m.Narrow
  · exact .inl (hkept (hsame hop))
  · simp only [not_forall] at hop
    obtain ⟨name, record, rfl, hwide⟩ := hop
    cases Operation.planned_of_planOn hplanOn with
    | create hc =>
      rcases Model.createAction_eq_error (runMap_eq_error.mp haction) with heq | ⟨_, rfl, id, hinsert⟩
      · exact .inl (hkept heq)
      · have hname : m.name = name := hr.get_name hget
        exact .inr ⟨rfl, m, record, _, handle, db, db', id, by rw [hname], hname ▸ hget, hwide, hc,
          hleads, hinsert, rfl⟩

/-- A row that cannot be read is there nevertheless. -/
theorem AddsUnread.run {op : Operation} {e : StoreError} (h : s.AddsUnread op e s') :
    perform op s = .error e s' ∧ ¬ s.SameData s' := by
  obtain ⟨rfl, m, record, cells, handle, db, db', id, rfl, hget, hwide, hc, hleads, hinsert, rfl⟩ := h
  have hplan : (Operation.create m.name record).plan s.registry =
      .ok (m, ⟨.write, .record <$> m.createAction (m.insert cells)⟩) := by
    rw [plan_of_get (.create m.name record) hget, Operation.planOn, Operation.cellsOf_eq_ok.mpr hc]
    rfl
  have haction : (Answer.record <$> m.createAction (m.insert cells)) db = .error unread db' :=
    runMap_eq_error.mpr (Model.createAction_of_wide hwide hinsert)
  refine ⟨?_, fun hsame => ?_⟩
  · rw [perform_of_plan hplan, run_of_leads hleads]
    simp only [haction]
  · have heq : db' = db := by
      have hdatabase := hsame.database (s.connectionOf m .write)
      rw [(hleads.setDatabaseAt db').databaseOf, hleads.databaseOf] at hdatabase
      exact Option.some.inj hdatabase
    obtain ⟨t, t', ht, hi, ht'⟩ := Database.insert_table hinsert
    obtain ⟨_, hrows⟩ := Table.insert_eq_ok hi
    rw [heq, ht] at ht'
    cases ht'
    have hlength := congrArg (fun t : Table => t.rows.length) hrows
    simp only [(Table.insertRow_perm _ _).length_eq, List.length_cons] at hlength
    omega

/-- An operation or a command that fails changes no row and no counter, in whatever state of a
session, unless it creates a record of a model of too many columns: its row is then added, and it
fails since the row cannot be read. The tables that the database keeps for itself are left out. -/
theorem sameData_or_unread (h : s.Reachable)
    (_hordinary : ∀ m ∈ s.registry.models, Database.isReservedName m.tableName = false) :
    (∀ op e s', perform op s = .error e s' → s.SameData s' ∨ s.AddsUnread op e s') ∧
      (∀ (c : Command) e s', c.run s = .error e s' → s.SameData s' ∨
        ∃ op, c.operation? s.files = .ok (some op) ∧ s.AddsUnread op e s') ∧
      ∀ op e s', s.AddsUnread op e s' → perform op s = .error e s' ∧ ¬ s.SameData s' := by
  have hperform : ∀ op e s', perform op s = .error e s' → s.SameData s' ∨ s.AddsUnread op e s' :=
    fun op e s' herror => perform_sameData_or_unread h.proper h.registry_proper herror
  refine ⟨hperform, fun c e s' herror => ?_, fun op e s' hadds => hadds.run⟩
  rcases command_eq_error herror with rfl | ⟨op, hop, hfailed⟩
  · exact .inl (.refl _)
  · exact (hperform op e s' hfailed).imp_right fun hadds => ⟨op, hop, hadds⟩

/-- The second of three records repeats a name, and none of the three stays. -/
theorem sameData_of_repeated_name :
    let s := (uniqueSession.after .init).after (.operation (.create "Person" [("name", .string "Ann")]))
    ∃ e s', perform (.createAll "Person" [[("name", .string "Bob")], [("name", .string "Ann")],
      [("name", .string "Cid")]]) s = .error e s' ∧ s.SameData s' := by
  intro s
  have hopened : uniqueSession.Reachable :=
    .opened (FileTree.proper_ofTexts []) (rfl : ofConfig uniqueConfig .default _ = .ok _)
  have hs : s.Reachable := .after (.after hopened .init) _
  have hordinary : ∀ m ∈ s.registry.models, Database.isReservedName m.tableName = false :=
    List.forall_mem_singleton.mpr (by decide)
  obtain ⟨e, s', herror⟩ : ∃ e s', perform (.createAll "Person" [[("name", .string "Bob")],
    [("name", .string "Ann")], [("name", .string "Cid")]]) s = .error e s' := ⟨_, _, rfl⟩
  refine ⟨e, s', herror, ((sameData_or_unread hs hordinary).1 _ e s' herror).resolve_right ?_⟩
  rintro ⟨_, _, _, _, _, _, _, _, hcreate, _⟩
  cases hcreate

end Session

end RecordStore
