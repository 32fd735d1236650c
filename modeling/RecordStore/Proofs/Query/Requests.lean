import RecordStore.Proofs.Query.Shapes

/-!
# What the text of a statement is made of

A request for a statement on a model is answered by pieces of text or by an error. Requests of one
shape get the same text and as many parameters, or the same error. The text holds fixed words, the
quoted names of the model, and paths into JSON columns whose segments are identifiers, and nothing
else; so no text of a user stands in it besides those segments.
-/

namespace RecordStore

/-- A request for a statement: what it reads or changes, and where. -/
inductive Request
  | select (filter : Option Filter) (keys : List SortKey) (window : Option Window)
  | count (filter : Option Filter)
  | exists (filter : Option Filter)
  | insert (cells : List (String × SqlValue))
  | update (cells : List (String × SqlValue)) (filter : Option Filter)
  | delete (filter : Option Filter)

/-- The pieces of the statement that a request is answered by. -/
def Model.write (m : Model) : Request → Except StoreError (List Piece)
  | .select filter keys window => ((m.select filter keys window).map Select.pieces).mapError .query
  | .count filter => ((m.count filter).map Count.pieces).mapError .query
  | .exists filter => ((m.exists? filter).map Exists.pieces).mapError .query
  | .insert cells => .ok (m.insert cells).pieces
  | .update cells filter => (m.update cells filter).map Update.pieces
  | .delete filter => ((m.delete filter).map Delete.pieces).mapError .query

namespace Request

/-- Requests of one kind, with filters of one shape, the same sort keys, both a window or none, and
cells of the same columns. -/
inductive SameShape : Request → Request → Prop
  | select {filter filter' : Option Filter} {keys : List SortKey} {window window' : Option Window}
      (hf : Option.Rel Filter.SameShape filter filter') (hw : window.isSome = window'.isSome) :
      SameShape (.select filter keys window) (.select filter' keys window')
  | count {filter filter' : Option Filter} (hf : Option.Rel Filter.SameShape filter filter') :
      SameShape (.count filter) (.count filter')
  | exists {filter filter' : Option Filter} (hf : Option.Rel Filter.SameShape filter filter') :
      SameShape (.exists filter) (.exists filter')
  | insert {cells cells' : List (String × SqlValue)}
      (hc : cells.map Prod.fst = cells'.map Prod.fst) : SameShape (.insert cells) (.insert cells')
  | update {cells cells' : List (String × SqlValue)} {filter filter' : Option Filter}
      (hc : cells.map Prod.fst = cells'.map Prod.fst)
      (hf : Option.Rel Filter.SameShape filter filter') :
      SameShape (.update cells filter) (.update cells' filter')
  | delete {filter filter' : Option Filter} (hf : Option.Rel Filter.SameShape filter filter') :
      SameShape (.delete filter) (.delete filter')

/-- Requests whose sort keys were read from a sort order, and whose cells were encoded from a
record. -/
inductive Checked (m : Model) : Request → Prop
  | select {sort : Json} {filter : Option Filter} {keys : List SortKey} {window : Option Window}
      (hk : SortKey.ofJson sort = .ok keys) : Checked m (.select filter keys window)
  | count (filter : Option Filter) : Checked m (.count filter)
  | exists (filter : Option Filter) : Checked m (.exists filter)
  | insert {allowId : Bool} {record : Record} {cells : List (String × SqlValue)}
      (hc : m.encode allowId record = .ok cells) : Checked m (.insert cells)
  | update {allowId : Bool} {record : Record} {cells : List (String × SqlValue)}
      {filter : Option Filter} (hc : m.encode allowId record = .ok cells) :
      Checked m (.update cells filter)
  | delete (filter : Option Filter) : Checked m (.delete filter)

/-- The paths into columns that a request sorts by. -/
def paths : Request → List (List String)
  | .select _ keys _ => keys.map SortKey.subkeys
  | _ => []

end Request

/-! ## One text for one shape -/

theorem whereLine_form {condition condition' : Option Clause}
    (h : condition.map Clause.form = condition'.map Clause.form) :
    Piece.form (whereLine condition) = Piece.form (whereLine condition') := by
  cases condition with
  | none =>
    cases condition' with
    | none => rfl
    | some clause' => cases h
  | some clause =>
    cases condition' with
    | none => cases h
    | some clause' => exact congrArg (_ :: ·) (Option.some.inj h)

/-- The columns of cells tell whether there are any cells. -/
theorem cells_eq_nil_iff {cells cells' : List (String × SqlValue)}
    (h : cells.map Prod.fst = cells'.map Prod.fst) : cells = [] ↔ cells' = [] := by
  rw [← List.map_eq_nil_iff (f := Prod.fst), h, List.map_eq_nil_iff]

theorem Insert.pieces_of_ne_nil (table : String) {cells : List (String × SqlValue)}
    (hne : cells ≠ []) : Insert.pieces ⟨table, cells⟩ =
      [.ofString "INSERT INTO ", .name table, .ofString " ("] ++
        Piece.commas (cells.map fun cell => [.name cell.1]) ++
        .ofString ") VALUES " :: Clause.operandPieces (cells.map Prod.snd) := by
  cases cells with
  | nil => exact absurd rfl hne
  | cons first rest => rfl

theorem Update.pieces_eq (s : Update) : s.pieces =
    [.ofString "UPDATE ", .name s.table, .ofString " SET "] ++
      Piece.commas (s.cells.map fun cell => [.name cell.1, .ofString " = ", .param cell.2]) ++
      whereLine s.condition := rfl

theorem Insert.pieces_form (table : String) {cells cells' : List (String × SqlValue)}
    (h : cells.map Prod.fst = cells'.map Prod.fst) :
    Piece.form (Insert.pieces ⟨table, cells⟩) = Piece.form (Insert.pieces ⟨table, cells'⟩) := by
  by_cases hnil : cells = []
  · rw [hnil, (cells_eq_nil_iff h).mp hnil]
  · have hnames : ∀ more : List (String × SqlValue), (more.map fun cell => [Piece.name cell.1]) =
        (more.map Prod.fst).map fun name => [.name name] := by
      intro more
      rw [List.map_map]
      rfl
    have hlength := congrArg List.length h
    rw [List.length_map, List.length_map] at hlength
    have hoperands : (cells.map Prod.snd).length = (cells'.map Prod.snd).length := by
      rw [List.length_map, List.length_map, hlength]
    rw [pieces_of_ne_nil table hnil, pieces_of_ne_nil table (mt (cells_eq_nil_iff h).mpr hnil)]
    simp only [Piece.form_append, Piece.form_cons, hnames, h, Clause.form_operandPieces hoperands]

theorem Update.pieces_form (table : String) {cells cells' : List (String × SqlValue)}
    {condition condition' : Option Clause} (h : cells.map Prod.fst = cells'.map Prod.fst)
    (hc : condition.map Clause.form = condition'.map Clause.form) :
    Piece.form (Update.pieces ⟨table, cells, condition⟩) =
      Piece.form (Update.pieces ⟨table, cells', condition'⟩) := by
  have hassigned : ∀ more : List (String × SqlValue),
      (more.map fun cell => [Piece.name cell.1, .ofString " = ", .param cell.2]).map Piece.form =
        (more.map Prod.fst).map fun name => [.name name, .ofString " = ", .param .null] := by
    intro more
    rw [List.map_map, List.map_map]
    rfl
  simp only [pieces_eq, Piece.form_append, Piece.commas, Piece.form_joinWith, hassigned, h,
    whereLine_form hc]

theorem Select.pieces_form (table : String) (columns : List String) (order : List OrderTerm)
    {condition condition' : Option Clause} {window window' : Option RowWindow}
    (hc : condition.map Clause.form = condition'.map Clause.form)
    (hw : window.isSome = window'.isSome) :
    Piece.form (Select.pieces ⟨table, columns, condition, order, window⟩) =
      Piece.form (Select.pieces ⟨table, columns, condition', order, window'⟩) := by
  have hwindow : ∀ w w' : RowWindow,
      Piece.form [.ofString " LIMIT ", .param (.integer w.limit), .ofString " OFFSET ",
        .param (.integer w.offset)] =
      Piece.form [.ofString " LIMIT ", .param (.integer w'.limit), .ofString " OFFSET ",
        .param (.integer w'.offset)] := fun _ _ => rfl
  cases window with
  | none =>
    cases window' with
    | none => simp only [pieces, Piece.form_append, whereLine_form hc]
    | some w' => cases hw
  | some w =>
    cases window' with
    | none => cases hw
    | some w' => simp only [pieces, Piece.form_append, whereLine_form hc, hwindow w w']

namespace Model

variable (m : Model)

theorem restriction_form {filter filter' : Option Filter}
    (h : Option.Rel Filter.SameShape filter filter') :
    (m.restriction filter).map (Option.map Clause.form) =
      (m.restriction filter').map (Option.map Clause.form) := by
  cases h with
  | none => rfl
  | some h =>
    rw [restriction, restriction, h.isUnrestricted_eq]
    split
    · rfl
    · exact m.compile_form h

theorem select_form {filter filter' : Option Filter} (keys : List SortKey)
    {window window' : Option Window} (hf : Option.Rel Filter.SameShape filter filter')
    (hw : window.isSome = window'.isSome) :
    ((m.select filter keys window).map Select.pieces).map Piece.form =
      ((m.select filter' keys window').map Select.pieces).map Piece.form := by
  rw [map_map, map_map]
  refine map_bind_congr (m.restriction_form hf) fun c c' hc => ?_
  refine map_bind_congr (rfl : (keys.mapM m.orderTerm).map id = _) fun order order' ho => ?_
  obtain rfl : order = order' := ho
  have hrows : (window.map Window.toRows).isSome = (window'.map Window.toRows).isSome := by
    rw [Option.isSome_map, Option.isSome_map, hw]
  exact congrArg Except.ok (Select.pieces_form _ _ _ hc hrows)

theorem update_form {cells cells' : List (String × SqlValue)} {filter filter' : Option Filter}
    (hcells : cells.map Prod.fst = cells'.map Prod.fst)
    (hf : Option.Rel Filter.SameShape filter filter') :
    ((m.update cells filter).map Update.pieces).map Piece.form =
      ((m.update cells' filter').map Update.pieces).map Piece.form := by
  rw [map_map, map_map, update, update]
  simp only [cells_eq_nil_iff hcells]
  split
  · rfl
  · refine map_bind_congr (k := Option.map Clause.form) ?_ fun c c' hc =>
      congrArg Except.ok (Update.pieces_form _ hcells hc)
    rw [mapError_map, mapError_map, m.restriction_form hf]

/-- A statement with nothing but a condition is written in one form for filters of one shape. -/
theorem filtered_form {α : Type} {filter filter' : Option Filter}
    (hf : Option.Rel Filter.SameShape filter filter') (build : Option Clause → α)
    (pieces : α → List Piece)
    (hb : ∀ c c' : Option Clause, c.map Clause.form = c'.map Clause.form →
      Piece.form (pieces (build c)) = Piece.form (pieces (build c'))) :
    (((m.restriction filter >>= fun c => .ok (build c)).map pieces).mapError StoreError.query).map
        Piece.form =
      (((m.restriction filter' >>= fun c => .ok (build c)).map pieces).mapError
        StoreError.query).map Piece.form := by
  rw [mapError_map, mapError_map, map_map, map_map]
  exact congrArg (Except.mapError _)
    (map_bind_congr (m.restriction_form hf) fun c c' hc => congrArg Except.ok (hb c c' hc))

/-- Requests of one shape get statements of one form, or one error. -/
theorem write_form {r r' : Request} (h : r.SameShape r') :
    (m.write r).map Piece.form = (m.write r').map Piece.form := by
  cases h with
  | @select _ _ keys _ _ hf hw =>
    rw [write, write, mapError_map, mapError_map, m.select_form keys hf hw]
  | count hf =>
    refine m.filtered_form hf (Count.mk m.tableName) Count.pieces fun c c' hc => ?_
    simp only [Count.pieces, Piece.form_append, whereLine_form hc]
  | «exists» hf =>
    refine m.filtered_form hf (Exists.mk m.tableName) Exists.pieces fun c c' hc => ?_
    simp only [Exists.pieces, Piece.form_append, whereLine_form hc]
  | insert hc => exact congrArg Except.ok (Insert.pieces_form _ hc)
  | update hc hf => exact m.update_form hc hf
  | delete hf =>
    refine m.filtered_form hf (Delete.mk m.tableName) Delete.pieces fun c c' hc => ?_
    simp only [Delete.pieces, Piece.form_append, whereLine_form hc]

end Model

/-! ## What the text consists of -/

/-- The words and signs that statements are written with. -/
def statementWords : List String :=
  ["SELECT ", "SELECT COUNT(*) FROM ", "SELECT EXISTS(SELECT 1 FROM ", " FROM ", "INSERT INTO ",
    " DEFAULT VALUES", ") VALUES ", "UPDATE ", " SET ", "DELETE FROM ", " WHERE ", " ORDER BY ",
    "json_extract(", " ASC", " DESC", " LIMIT ", " OFFSET ", " AND ", " OR ", " IS NULL",
    " IS NOT NULL", " IN ", " NOT IN ", "1 = 1", "0 = 1", " = ", " <> ", " > ", " >= ", " < ",
    " <= ", "(", " (", ")", ", ", "?"]

namespace Model

/-- What the text of a statement on a model is put together from. The paths into columns, whose
segments are identifiers, stand in quotes and are closed there. -/
inductive Fragment (m : Model) (paths : List (List String)) : List Char → Prop
  | word {s : String} (h : s ∈ statementWords) : Fragment m paths s.toList
  | table (h : isIdentifier m.tableName = true) : Fragment m paths (quotedName m.tableName)
  | column {name : String} (hn : m.Names name) (h : isIdentifier name = true) :
      Fragment m paths (quotedName name)
  | path {path : List String} (hp : path ∈ paths) (hne : path ≠ [])
      (h : ∀ segment ∈ path, isIdentifier segment = true) :
      Fragment m paths (", '$.".toList ++ joinWith ['.'] (path.map String.toList) ++ ['\'', ')'])

/-- Pieces that are written as fragments. -/
def Composed (m : Model) (paths : List (List String)) (pieces : List Piece) : Prop :=
  ∀ piece ∈ pieces, m.Fragment paths piece.chars

/-- The pieces of the statements on a model: words, names of the model, parameters, and paths. -/
inductive Part (m : Model) (paths : List (List String)) : Piece → Prop
  | word {s : String} (h : s ∈ statementWords ∧ s ≠ "?") : Part m paths (.ofString s)
  | param (value : SqlValue) : Part m paths (.param value)
  | table : Part m paths (.name m.tableName)
  | column {name : String} (hn : m.Names name) : Part m paths (.name name)
  | path {path : List String} (hp : path ∈ paths) (hne : path ≠ []) : Part m paths
      (.fixed (", '$.".toList ++ joinWith ['.'] (path.map String.toList) ++ ['\'', ')']))

/-- The names of a valid model are identifiers, so that its pieces are written as fragments where the
paths consist of identifiers. -/
theorem Part.fragment {m : Model} {paths : List (List String)} (hm : m.validate = .ok ())
    (hpaths : ∀ path ∈ paths, ∀ segment ∈ path, isIdentifier segment = true) {piece : Piece}
    (h : m.Part paths piece) : m.Fragment paths piece.chars := by
  cases h with
  | @word s h =>
    have hword : m.Fragment paths s.toList := .word h.1
    exact hword
  | param value =>
    have hmark : m.Fragment paths "?".toList := .word (by decide)
    exact hmark
  | table => exact .table (validate_isIdentifier hm).1
  | column hn => exact .column hn (hn.isIdentifier hm)
  | path hp hne => exact .path hp hne (hpaths _ hp)

/-- Sequences of such pieces. -/
def Parts (m : Model) (paths : List (List String)) (pieces : List Piece) : Prop :=
  ∀ piece ∈ pieces, m.Part paths piece

namespace Parts

variable {m : Model} {paths : List (List String)} {ps qs : List Piece}

theorem nil : m.Parts paths [] := fun _ h => absurd h List.not_mem_nil

theorem cons {piece : Piece} (h : m.Part paths piece) (hs : m.Parts paths ps) :
    m.Parts paths (piece :: ps) := List.forall_mem_cons.mpr ⟨h, hs⟩

theorem append (h : m.Parts paths ps) (h' : m.Parts paths qs) : m.Parts paths (ps ++ qs) :=
  fun piece hpiece => (List.mem_append.mp hpiece).elim (h piece) (h' piece)

theorem word {s : String} (h : s ∈ statementWords ∧ s ≠ "?") : m.Parts paths [.ofString s] :=
  cons (.word h) nil

theorem param (value : SqlValue) : m.Parts paths [.param value] := cons (.param value) nil

theorem name {s : String} (h : m.Names s) : m.Parts paths [.name s] := cons (.column h) nil

/-- The name of the table behind the words that a statement begins with. -/
theorem table {s : String} (h : s ∈ statementWords ∧ s ≠ "?") :
    m.Parts paths [.ofString s, .name m.tableName] := cons (.word h) (cons .table nil)

theorem joinWith {separator : List Piece} {parts : List (List Piece)}
    (hs : m.Parts paths separator) (h : ∀ part ∈ parts, m.Parts paths part) :
    m.Parts paths (joinWith separator parts) := by
  intro piece hpiece
  rcases mem_joinWith hpiece with hpiece | ⟨part, hpart, hpiece⟩
  · exact hs piece hpiece
  · exact h part hpart piece hpiece

theorem commas {α : Type} {pieces : α → List Piece} {parts : List α}
    (h : ∀ a ∈ parts, m.Parts paths (pieces a)) :
    m.Parts paths (Piece.commas (parts.map pieces)) :=
  joinWith (word (by decide)) (List.forall_mem_map.mpr h)

end Parts

section
variable {m : Model} {paths : List (List String)}

theorem parts_operandPieces (operands : List SqlValue) :
    m.Parts paths (Clause.operandPieces operands) := by
  have hmarks : m.Parts paths (Piece.commas (operands.map fun value => [.param value])) :=
    .commas fun value _ => .param value
  exact .append (.word (by decide)) (hmarks.append (.word (by decide)))

/-- A condition on columns of the model is written with their names, words and parameters. -/
theorem parts_clause {clause : Clause} (h : clause.Over m.Names) : m.Parts paths clause.pieces := by
  have hgroup : ∀ {s : String} {parts : List Clause}, s ∈ statementWords ∧ s ≠ "?" →
      (∀ part ∈ parts, m.Parts paths part.pieces) → m.Parts paths (.ofString "(" ::
        (joinWith [.ofString s] (Clause.partPieces parts) ++ [.ofString ")"])) := by
    intro s parts hs hparts
    rw [Clause.partPieces_eq_map]
    have hjoined : m.Parts paths (joinWith [.ofString s] (parts.map Clause.pieces)) :=
      .joinWith (.word hs) (List.forall_mem_map.mpr hparts)
    exact .append (.word (by decide)) (hjoined.append (.word (by decide)))
  induction h with
  | compare hp relation operand =>
    have hsign : " " ++ relation.sign ++ " " ∈ statementWords ∧ " " ++ relation.sign ++ " " ≠ "?" := by
      cases relation <;> decide
    exact (Parts.name hp).append (.append (.word hsign) (.param operand))
  | isNull hp => exact (Parts.name hp).append (.word (by decide))
  | isNotNull hp => exact (Parts.name hp).append (.word (by decide))
  | oneOf hp _ =>
    have hin : " IN " ∈ statementWords ∧ " IN " ≠ "?" := by decide
    exact .append (.append (.name hp) (.word hin)) (parts_operandPieces _)
  | noneOf hp _ =>
    have hin : " NOT IN " ∈ statementWords ∧ " NOT IN " ≠ "?" := by decide
    exact .append (.append (.name hp) (.word hin)) (parts_operandPieces _)
  | constant b => cases b <;> exact .word (by decide)
  | all _ _ ih => exact hgroup (by decide) ih
  | any _ _ ih => exact hgroup (by decide) ih

theorem parts_whereLine {filter : Option Filter} {condition : Option Clause}
    (h : m.restriction filter = .ok condition) : m.Parts paths (whereLine condition) := by
  cases condition with
  | none => exact .nil
  | some clause =>
    exact .append (.word (by decide)) (parts_clause (restriction_over h clause rfl))

/-- A path into a column is written where a sort key has it. -/
theorem parts_orderTerm {key : SortKey} {term : OrderTerm} (hp : key.subkeys ∈ paths)
    (h : m.orderTerm key = .ok term) : m.Parts paths term.pieces := by
  obtain ⟨column, path, descending⟩ := term
  obtain ⟨hname, rfl⟩ := orderTerm_parts h
  have hdirection : m.Parts paths [.ofString (if descending then " DESC" else " ASC")] := by
    cases descending <;> exact .word (by decide)
  have hcolumn : m.Parts paths [.name column] := .name hname
  cases hsubkeys : key.subkeys with
  | nil => exact hcolumn.append hdirection
  | cons first rest =>
    rw [hsubkeys] at hp
    have hpath : m.Part paths _ := .path hp (List.cons_ne_nil _ _)
    exact .append (.word (by decide)) (hcolumn.append (.cons hpath hdirection))

theorem parts_select {filter : Option Filter} {keys : List SortKey} {window : Option Window}
    {s : Select} (h : m.select filter keys window = .ok s) :
    m.Parts (keys.map SortKey.subkeys) s.pieces := by
  simp only [select, bind_eq_ok, Except.ok.injEq] at h
  obtain ⟨condition, hr, order, ho, rfl⟩ := h
  have hnames : m.Parts (keys.map SortKey.subkeys)
      (Piece.commas ((m.columns.map Column.name).map fun name => [.name name])) :=
    .commas fun name hname => .name (List.mem_map.mp hname)
  have hterms : ∀ term ∈ order, m.Parts (keys.map SortKey.subkeys) term.pieces := by
    intro term hterm
    obtain ⟨key, hkey, hterm⟩ := mem_of_mapM ho hterm
    exact parts_orderTerm (List.mem_map_of_mem hkey) hterm
  have hselect : "SELECT " ∈ statementWords ∧ "SELECT " ≠ "?" := by decide
  have hfrom : " FROM " ∈ statementWords ∧ " FROM " ≠ "?" := by decide
  refine .append (.append (.append (.append (.append (.word hselect) hnames) (.table hfrom))
    (parts_whereLine hr)) ?_) ?_
  · cases order with
    | nil => exact .nil
    | cons first rest => exact .append (.word (by decide)) (.commas hterms)
  · cases window with
    | none => exact .nil
    | some w =>
      have hlimit : " LIMIT " ∈ statementWords ∧ " LIMIT " ≠ "?" := by decide
      have hoffset : " OFFSET " ∈ statementWords ∧ " OFFSET " ≠ "?" := by decide
      exact .cons (.word hlimit) (.append (.param _) (.cons (.word hoffset) (.param _)))

theorem parts_insert {cells : List (String × SqlValue)} (hc : ∀ cell ∈ cells, m.Names cell.1) :
    m.Parts paths (m.insert cells).pieces := by
  have hinto : "INSERT INTO " ∈ statementWords ∧ "INSERT INTO " ≠ "?" := by decide
  by_cases hnil : cells = []
  · rw [hnil]
    exact .append (.table hinto) (.word (by decide))
  · have hopen : " (" ∈ statementWords ∧ " (" ≠ "?" := by decide
    have hvalues : ") VALUES " ∈ statementWords ∧ ") VALUES " ≠ "?" := by decide
    rw [insert, Insert.pieces_of_ne_nil _ hnil]
    exact .append (.append (.append (.table hinto) (.word hopen))
      (.commas fun cell hcell => .name (hc cell hcell)))
      (.cons (.word hvalues) (parts_operandPieces _))

theorem parts_update {cells : List (String × SqlValue)} {filter : Option Filter} {s : Update}
    (hc : ∀ cell ∈ cells, m.Names cell.1) (h : m.update cells filter = .ok s) :
    m.Parts paths s.pieces := by
  unfold update at h
  split at h
  · cases h
  · simp only [bind_eq_ok, mapError_eq_ok, Except.ok.injEq] at h
    obtain ⟨condition, hr, rfl⟩ := h
    have hupdate : "UPDATE " ∈ statementWords ∧ "UPDATE " ≠ "?" := by decide
    have hset : " SET " ∈ statementWords ∧ " SET " ≠ "?" := by decide
    have hequal : " = " ∈ statementWords ∧ " = " ≠ "?" := by decide
    rw [Update.pieces_eq]
    exact .append (.append (.append (.table hupdate) (.word hset))
      (.commas fun cell hcell =>
        .append (.name (hc cell hcell)) (.cons (.word hequal) (.param cell.2))))
      (parts_whereLine hr)

/-- The statement of a checked request is put together from the pieces for its model. -/
theorem parts_write {r : Request} (hr : r.Checked m) {pieces : List Piece}
    (h : m.write r = .ok pieces) : m.Parts r.paths pieces := by
  cases hr with
  | select _ =>
    simp only [write, mapError_eq_ok, map_eq_ok] at h
    obtain ⟨s, hs, rfl⟩ := h
    exact parts_select hs
  | count filter =>
    simp only [write, mapError_eq_ok, map_eq_ok, count, bind_eq_ok, Except.ok.injEq] at h
    obtain ⟨_, ⟨condition, hr, rfl⟩, rfl⟩ := h
    exact .append (.table (by decide)) (parts_whereLine hr)
  | «exists» filter =>
    simp only [write, mapError_eq_ok, map_eq_ok, exists?, bind_eq_ok, Except.ok.injEq] at h
    obtain ⟨_, ⟨condition, hr, rfl⟩, rfl⟩ := h
    have hclose : ")" ∈ statementWords ∧ ")" ≠ "?" := by decide
    exact .append (.append (.table (by decide)) (parts_whereLine hr)) (.word hclose)
  | insert hc =>
    cases h
    exact parts_insert (encode_names hc)
  | update hc =>
    obtain ⟨s, hs, rfl⟩ := map_eq_ok.mp h
    exact parts_update (encode_names hc) hs
  | delete filter =>
    simp only [write, mapError_eq_ok, map_eq_ok, delete, bind_eq_ok, Except.ok.injEq] at h
    obtain ⟨_, ⟨condition, hr, rfl⟩, rfl⟩ := h
    exact .append (.table (by decide)) (parts_whereLine hr)

/-- The paths of a checked request consist of identifiers. -/
theorem checked_paths {r : Request} (hr : r.Checked m) :
    ∀ path ∈ r.paths, ∀ segment ∈ path, isIdentifier segment = true := by
  cases hr with
  | select hk => exact List.forall_mem_map.mpr (SortKey.ofJson_subkeys hk)
  | count | «exists» | insert | update | delete => exact fun _ h => absurd h List.not_mem_nil

/-- The statement of a checked request is put together from fragments. -/
theorem composed_write (hm : m.validate = .ok ()) {r : Request} (hr : r.Checked m)
    {pieces : List Piece} (h : m.write r = .ok pieces) : m.Composed r.paths pieces :=
  fun piece hpiece => (parts_write hr h piece hpiece).fragment hm (checked_paths hr)

end

/-- The text of a statement depends on the shape of the request: requests of one shape get one text
and as many parameters, or one error. And the text of a checked request consists of fragments. -/
theorem write_by_shape {m : Model} (hm : m.validate = .ok ()) {r r' : Request}
    (h : r.SameShape r') :
    (m.write r).map (fun pieces => (Piece.text pieces, (Piece.params pieces).length)) =
        (m.write r').map (fun pieces => (Piece.text pieces, (Piece.params pieces).length)) ∧
      (r.Checked m → ∀ pieces, m.write r = .ok pieces →
        ∃ fragments : List (List Char), (Piece.text pieces).toList = fragments.flatten ∧
          ∀ fragment ∈ fragments, m.Fragment r.paths fragment) := by
  constructor
  · have hform := congrArg (Except.map fun pieces : List Piece =>
      (Piece.text pieces, (Piece.params pieces).length)) (m.write_form h)
    rw [map_map, map_map] at hform
    simpa only [Piece.text_form, Piece.params_form] using hform
  · intro hr pieces hw
    refine ⟨pieces.map Piece.chars, ?_, List.forall_mem_map.mpr (composed_write hm hr hw)⟩
    rw [Piece.text, String.toList_ofList, List.flatMap_def]

end Model

/-- A model with a column to sort inside of. -/
def staffModel : Model := ⟨"Staff", none, [.plain "name" .text, .plain "home" .json]⟩

/-- Reads the records of that model with some names, ordered by the town of the home. -/
def staffRequest (names : List Json) (offset : Nat) : Request :=
  .select (some (.condition ⟨"name", .oneOf, .array names⟩)) [⟨"home", ["town"], true⟩]
    (some ⟨offset, 5⟩)

/-- A name that looks like a part of a statement is written like any other name. -/
theorem staff_by_name : ∃ pieces pieces' : List Piece,
    staffModel.write (staffRequest [.string "Ann"] 0) = .ok pieces ∧
    staffModel.write (staffRequest [.string "') OR 1 = 1 --"] 10) = .ok pieces' ∧
    Piece.text pieces = "SELECT \"_id\", \"name\", \"home\" FROM \"staff\" WHERE \"name\" IN (?)" ++
      " ORDER BY json_extract(\"home\", '$.town') DESC LIMIT ? OFFSET ?" ∧
    Piece.text pieces' = Piece.text pieces ∧
    ∃ fragments : List (List Char), (Piece.text pieces).toList = fragments.flatten ∧
      ∀ fragment ∈ fragments, staffModel.Fragment [["town"]] fragment := by
  have hshape : (staffRequest [.string "Ann"] 0).SameShape
      (staffRequest [.string "') OR 1 = 1 --"] 10) :=
    .select (.some (.condition (.items rfl ⟨rfl, by simp, rfl⟩))) rfl
  have hchecked : (staffRequest [.string "Ann"] 0).Checked staffModel :=
    .select (rfl : SortKey.ofJson (.string "-home.town") = .ok _)
  obtain ⟨hsame, hfragments⟩ := Model.write_by_shape (rfl : staffModel.validate = .ok ()) hshape
  refine ⟨_, _, rfl, rfl, by decide +kernel, ?_, hfragments hchecked _ rfl⟩
  exact (congrArg Prod.fst (Except.ok.inj hsame)).symm

end RecordStore
