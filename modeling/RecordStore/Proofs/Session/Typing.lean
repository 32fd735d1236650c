import RecordStore.Proofs.Session.Serving
import RecordStore.Proofs.Model.Typing
import RecordStore.Proofs.Operation.Answers

/-!
# Data stay well typed

Whatever happens to a serving session, the table of every model is well typed, and what an operation
answers with are records of rows that the table has when the operation is done. Such a record is
accepted by the model again, and gives back exactly the cells of its row.
-/

namespace RecordStore

namespace Session

variable {s s' : Session} {m : Model} {db : Database}

/-! ## What is kept -/

/-- In a serving session every model has a well-typed table in the open database. -/
theorem Serving.wellTyped (h : Serving Json.Proper s) (hdb : s.database? = some db)
    (hm : m ∈ s.registry.models) :
    ∃ t, db.table? m.tableName = some t ∧ m.WellTyped t ∧
      ∀ row ∈ t.rows, m.Shows row (m.recordOf row) := by
  obtain ⟨t, ht, hfilled⟩ := (h.hosts hdb).filled m hm
  have hd := h.served.defaults m hm
  exact ⟨t, ht, hfilled.wellTyped hd, fun row hrow =>
    Model.shows_recordOf hfilled.own hrow (hfilled.typed hd row hrow)⟩

/-- The model of notes with different titles and tags, of which there are none by default. -/
def noteModel : Model :=
  ⟨"Note", none, [⟨"title", .text, false, true, none⟩, ⟨"tags", .json, true, false, some (.array [])⟩]⟩

def noteConfig : DatabaseConfig := ⟨"sqlite://:memory:", "test", [noteModel]⟩

/-- A session of notes with that configuration and no connections. -/
def noteClosed : Session := ⟨noteConfig, .of "test" noteConfig.models, .default, none, ⟨[]⟩, .default⟩

/-- Two notes, of which the second leaves its tags to their default. -/
def twoNotes : Operation := .createAll "Note"
  [[("title", .string "a"), ("tags", .object [("of", .array [.bool true])])], [("title", .string "b")]]

/-- The session of notes as it serves after both were created. -/
def noteSession : Session := (noteClosed.after .init).after (.operation twoNotes)

theorem serving_noteSession : Serving Json.Proper noteSession := by
  have hopened : noteClosed.Reachable :=
    .opened (FileTree.proper_ofTexts []) (rfl : ofConfig noteConfig .default _ = .ok _)
  have hopen : noteClosed.OpensFresh (noteClosed.after .init) := ⟨rfl, .memory, _, rfl, rfl, rfl⟩
  have hdistinct : DistinctTables noteClosed.registry.models := List.pairwise_singleton _ _
  have hbrings : twoNotes.Brings Json.Proper [noteModel] := by
    unfold Operation.Brings
    decide
  refine .after (.opened hopened hdistinct (fun m hm f hf _ value hvalue => ?_) hopen) hbrings
  obtain rfl := List.mem_singleton.mp hm
  simp only [noteModel, List.mem_cons, List.not_mem_nil, or_false] at hf
  rcases hf with rfl | rfl
  · cases hvalue
  · cases hvalue
    decide

end Session

end RecordStore
