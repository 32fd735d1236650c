import RecordStore.Proofs.Sql.ReadBack

/-!
# Statements read back

What a statement selects is what its condition selects, when its text is read together with its
parameters: the text before `WHERE` holds no such keyword, and the text after the condition does not
go on with it. This holds for every statement that has a condition, and also where it has none.
-/

namespace RecordStore

theorem mem_joinWith {α : Type} {separator : List α} {parts : List (List α)} {a : α}
    (h : a ∈ joinWith separator parts) : a ∈ separator ∨ ∃ part ∈ parts, a ∈ part := by
  induction parts with
  | nil => exact absurd h List.not_mem_nil
  | cons first rest ih =>
    cases rest with
    | nil => exact .inr ⟨first, List.mem_cons_self, h⟩
    | cons next more =>
      simp only [joinWith, List.append_assoc, List.mem_append] at h
      rcases h with h | h | h
      · exact .inr ⟨first, List.mem_cons_self, h⟩
      · exact .inl h
      · rcases ih h with h | ⟨part, hpart, ha⟩
        · exact .inl h
        · exact .inr ⟨part, List.mem_cons_of_mem _ hpart, ha⟩

namespace Piece

/-- What may stand before the condition of a statement. -/
structure Leads (pieces : List Piece) (ts : List Token) : Prop where
  reads : ReadAs pieces ts
  plain : .keyword .WHERE ∉ ts

/-- What may stand after the condition of a statement. -/
structure Trails (pieces : List Piece) (ts : List Token) : Prop where
  reads : ReadAs pieces ts
  plain : .keyword .WHERE ∉ ts
  ends : Clause.mayEnd ts = true
  apart : pieces = [] ∧ ts = [] ∨ StartsApart pieces

variable {ps qs : List Piece} {ts us : List Token}

theorem trails_nil : Trails [] [] :=
  ⟨readThrough_nil.readAs, List.not_mem_nil, rfl, .inl ⟨rfl, rfl⟩⟩

theorem ReadAs.append_trails (h : ReadAs ps ts) (ht : Trails qs us) :
    ReadAs (ps ++ qs) (ts ++ us) := by
  rcases ht.apart with ⟨rfl, rfl⟩ | hq
  · simpa using h
  · exact h.append hq ht.reads

theorem mayEnd_append (h : Clause.mayEnd ts = true) (h' : Clause.mayEnd us = true) :
    Clause.mayEnd (ts ++ us) = true := by
  unfold Clause.mayEnd at h
  split at h
  · exact h'
  · rfl
  · rfl
  · rfl
  · exact absurd h Bool.false_ne_true

theorem Trails.append (h : Trails ps ts) (h' : Trails qs us) : Trails (ps ++ qs) (ts ++ us) := by
  refine ⟨h.reads.append_trails h', ?_, mayEnd_append h.ends h'.ends, ?_⟩
  · rw [List.mem_append, not_or]
    exact ⟨h.plain, h'.plain⟩
  · rcases h.apart with ⟨rfl, rfl⟩ | hp
    · exact h'.apart
    · exact .inr (hp.append qs)

/-- Neither keyword that goes on with a condition stands where a condition may end. -/
theorem head?_ne_of_mayEnd {k : Keyword} (h : Clause.mayEnd ts = true) (hk : k = .AND ∨ k = .OR) :
    ts.head? ≠ some (.keyword k) := by
  intro hhead
  obtain ⟨tail, rfl⟩ := List.head?_eq_some_iff.mp hhead
  rcases hk with rfl | rfl <;> exact absurd h Bool.false_ne_true

end Piece

namespace Clause

theorem dropWhile_front {front : List Token} (h : .keyword .WHERE ∉ front) (rest : List Token) :
    (front ++ rest).dropWhile (· ≠ .keyword .WHERE) = rest.dropWhile (· ≠ .keyword .WHERE) := by
  refine List.dropWhile_append_of_pos fun token htoken => decide_eq_true ?_
  rintro rfl
  exact h htoken

theorem ofTokens_plain {ts : List Token} (h : .keyword .WHERE ∉ ts) :
    ofTokens ts = some none := by
  have hdrop := dropWhile_front h []
  rw [List.append_nil] at hdrop
  rw [ofTokens, hdrop, List.dropWhile_nil]

/-- The condition between `WHERE` and the end is found, whatever stands before it. -/
theorem ofTokens_where {front tail : List Token} {clause : Clause} (hc : clause.Readable)
    (hf : .keyword .WHERE ∉ front) (ht : mayEnd tail = true) :
    ofTokens (front ++ .keyword .WHERE :: (clause.tokens ++ tail)) = some (some clause) := by
  have hdrop : (front ++ .keyword .WHERE :: (clause.tokens ++ tail)).dropWhile
      (· ≠ .keyword .WHERE) = .keyword .WHERE :: (clause.tokens ++ tail) := dropWhile_front hf _
  have hne : clause.tokens ++ tail ≠ [] := fun h =>
    clause.tokens_ne_nil (List.append_eq_nil_iff.mp h).1
  have hdepth : clause.tokens.length ≤ (clause.tokens ++ tail).length := by simp
  have htest := hc.readTest hdepth tail
  have hread := readCondition_single
    (readConjunction_single htest hne (Piece.head?_ne_of_mayEnd ht (.inl rfl))) hne
    (Piece.head?_ne_of_mayEnd ht (.inr rfl))
  simp only [ofTokens, hdrop, hread, Option.bind_some, ht, if_true]

end Clause

open Piece

/-- The tokens of a condition behind the word that it stands behind. -/
def whereTokens : Option Clause → List Token
  | none => []
  | some clause => .keyword .WHERE :: clause.tokens

/-- A statement is read part by part: what stands before its condition, the condition, and what
stands after it. -/
theorem readAs_whereLine {front tail : List Piece} {ts us : List Token} {condition : Option Clause}
    (hf : Leads front ts) (ht : Trails tail us) (hc : ∀ clause ∈ condition, clause.Readable) :
    ReadAs (front ++ whereLine condition ++ tail) (ts ++ whereTokens condition ++ us) := by
  cases condition with
  | none => simpa only [whereLine, whereTokens, List.append_nil] using hf.reads.append_trails ht
  | some clause =>
    have hwhere : ReadThrough [.ofString " WHERE "] [.keyword .WHERE] := fun _ _ => rfl
    exact (hf.reads.append ⟨' ', _, rfl, rfl⟩
      (hwhere.append_readAs (hc clause rfl).readAs)).append_trails ht

/-- The condition is found among the tokens of a statement. -/
theorem ofTokens_whereTokens {front tail : List Piece} {ts us : List Token}
    {condition : Option Clause} (hf : Leads front ts) (ht : Trails tail us)
    (hc : ∀ clause ∈ condition, clause.Readable) :
    Clause.ofTokens (ts ++ whereTokens condition ++ us) = some condition := by
  cases condition with
  | none =>
    rw [whereTokens, List.append_nil]
    exact Clause.ofTokens_plain (by simp [hf.plain, ht.plain])
  | some clause =>
    have htokens : ts ++ whereTokens (some clause) ++ us =
        ts ++ .keyword .WHERE :: (clause.tokens ++ us) := by simp [whereTokens]
    rw [htokens]
    exact Clause.ofTokens_where (hc clause rfl) hf.plain ht.ends

/-- The condition of a statement is what its text and its parameters say. -/
theorem conditionOf_whereLine {front tail : List Piece} {ts us : List Token}
    {condition : Option Clause} (hf : Leads front ts) (ht : Trails tail us)
    (hc : ∀ clause ∈ condition, clause.Readable) :
    conditionOf (text (front ++ whereLine condition ++ tail))
      (params (front ++ whereLine condition ++ tail)) = some condition := by
  rw [conditionOf, tokensOf_pieces (readAs_whereLine hf ht hc), Option.bind_some,
    ofTokens_whereTokens hf ht hc]

/-! ## The statements

A name without zero characters is read as itself, and so is a path of such segments without quote
characters. -/

theorem plain_joinWith {α : Type} {k : Keyword} {write : α → List Token} {parts : List α}
    (h : ∀ a ∈ parts, .keyword k ∉ write a) :
    .keyword k ∉ joinWith [.sign [',']] (parts.map write) := by
  intro hmem
  rcases mem_joinWith hmem with hcomma | ⟨part, hpart, hk⟩
  · simp at hcomma
  · obtain ⟨a, ha, rfl⟩ := List.mem_map.mp hpart
    exact h a ha hk

/-- Words in front of the name of a table. -/
theorem leads_table {words table : String} {ts : List Token}
    (h : ReadThrough [.ofString words] ts) (hp : .keyword .WHERE ∉ ts)
    (hz : '\x00' ∉ table.toList) :
    Leads [.ofString words, .name table] (ts ++ [.name table]) :=
  ⟨h.append_readAs (readAs_name hz), by simp [hp]⟩

namespace Count

def front (table : String) : List Piece := [.ofString "SELECT COUNT(*) FROM ", .name table]

def frontTokens (table : String) : List Token :=
  [.word "SELECT".toList, .word "COUNT".toList, .sign ['('], .sign ['*'], .sign [')'],
    .word "FROM".toList, .name table]

theorem leads {table : String} (hz : '\x00' ∉ table.toList) :
    Leads (front table) (frontTokens table) := by
  have hwords : ReadThrough [.ofString "SELECT COUNT(*) FROM "]
    [.word "SELECT".toList, .word "COUNT".toList, .sign ['('], .sign ['*'], .sign [')'],
      .word "FROM".toList] := fun _ _ => rfl
  exact leads_table hwords (by simp) hz

theorem conditionOf_pieces {s : Count} (hz : '\x00' ∉ s.table.toList)
    (hc : ∀ clause ∈ s.condition, clause.Readable) :
    conditionOf (text s.pieces) (params s.pieces) = some s.condition := by
  have hread := conditionOf_whereLine (leads hz) trails_nil hc
  rwa [List.append_nil] at hread

end Count

namespace Exists

def front (table : String) : List Piece := [.ofString "SELECT EXISTS(SELECT 1 FROM ", .name table]

def frontTokens (table : String) : List Token :=
  [.word "SELECT".toList, .word "EXISTS".toList, .sign ['('], .word "SELECT".toList, .word ['1'],
    .word "FROM".toList, .name table]

theorem leads {table : String} (hz : '\x00' ∉ table.toList) :
    Leads (front table) (frontTokens table) := by
  have hwords : ReadThrough [.ofString "SELECT EXISTS(SELECT 1 FROM "]
    [.word "SELECT".toList, .word "EXISTS".toList, .sign ['('], .word "SELECT".toList, .word ['1'],
      .word "FROM".toList] := fun _ _ => rfl
  exact leads_table hwords (by simp) hz

theorem trails : Trails [.ofString ")"] [.sign [')']] :=
  ⟨fun _ _ => rfl, by simp, rfl, .inr ⟨')', [], rfl, rfl⟩⟩

theorem conditionOf_pieces {s : Exists} (hz : '\x00' ∉ s.table.toList)
    (hc : ∀ clause ∈ s.condition, clause.Readable) :
    conditionOf (text s.pieces) (params s.pieces) = some s.condition :=
  conditionOf_whereLine (leads hz) trails hc

end Exists

namespace Delete

def front (table : String) : List Piece := [.ofString "DELETE FROM ", .name table]

def frontTokens (table : String) : List Token :=
  [.word "DELETE".toList, .word "FROM".toList, .name table]

theorem leads {table : String} (hz : '\x00' ∉ table.toList) :
    Leads (front table) (frontTokens table) := by
  have hwords : ReadThrough [.ofString "DELETE FROM "] [.word "DELETE".toList, .word "FROM".toList] :=
    fun _ _ => rfl
  exact leads_table hwords (by simp) hz

theorem conditionOf_pieces {s : Delete} (hz : '\x00' ∉ s.table.toList)
    (hc : ∀ clause ∈ s.condition, clause.Readable) :
    conditionOf (text s.pieces) (params s.pieces) = some s.condition := by
  have hread := conditionOf_whereLine (leads hz) trails_nil hc
  rwa [List.append_nil] at hread

end Delete

namespace Update

/-- The cells that are set stand before the condition, and so do their parameters. -/
def front (table : String) (cells : List (String × SqlValue)) : List Piece :=
  [.ofString "UPDATE ", .name table, .ofString " SET "] ++
    commas (cells.map fun cell => [.name cell.1, .ofString " = ", .param cell.2])

def frontTokens (table : String) (cells : List (String × SqlValue)) : List Token :=
  [.word "UPDATE".toList, .name table, .word "SET".toList] ++
    joinWith [.sign [',']] (cells.map fun cell => [.name cell.1, .sign ['='], .value cell.2])

theorem leads {table : String} {cells : List (String × SqlValue)} (hz : '\x00' ∉ table.toList)
    (hcells : ∀ cell ∈ cells, '\x00' ∉ cell.1.toList) :
    Leads (front table cells) (frontTokens table cells) := by
  have hupdate : ReadThrough [.ofString "UPDATE "] [.word "UPDATE".toList] := fun _ _ => rfl
  have hset : ReadThrough [.ofString " SET "] [.word "SET".toList] := fun _ _ => rfl
  have hequal : ReadThrough [.ofString " = "] [.sign ['=']] := fun _ _ => rfl
  have htable := (leads_table hupdate (by simp) hz).reads.append_readThrough ⟨' ', _, rfl, rfl⟩ hset
  have hcell : ∀ cell ∈ cells, ReadAs [.name cell.1, .ofString " = ", .param cell.2]
      [.name cell.1, .sign ['='], .value cell.2] := fun cell hcell =>
    ((readAs_name (hcells cell hcell)).append_readThrough ⟨' ', _, rfl, rfl⟩
      (hequal.append (readThrough_param cell.2))).readAs
  have hplain : .keyword .WHERE ∉ joinWith [.sign [',']]
      (cells.map fun cell => [Token.name cell.1, .sign ['='], .value cell.2]) :=
    plain_joinWith fun _ _ => by simp
  exact ⟨htable.append_readAs (readAs_commas hcell), by simp [frontTokens, hplain]⟩

theorem conditionOf_pieces {s : Update} (hz : '\x00' ∉ s.table.toList)
    (hcells : ∀ cell ∈ s.cells, '\x00' ∉ cell.1.toList)
    (hc : ∀ clause ∈ s.condition, clause.Readable) :
    conditionOf (text s.pieces) (params s.pieces) = some s.condition := by
  have hread := conditionOf_whereLine (leads hz hcells) trails_nil hc
  rwa [List.append_nil] at hread

end Update

namespace OrderTerm

/-- The text of a path inside a column. -/
def pathText (path : List String) : List Char := joinWith ['.'] (path.map String.toList)

/-- The tokens of an order term. -/
def tokens (t : OrderTerm) : List Token :=
  let direction := .word (if t.descending then "DESC" else "ASC").toList
  match t.path with
  | [] => [.name t.column, direction]
  | path =>
    [.word "json_extract".toList, .sign ['('], .name t.column, .sign [','],
      .text (String.ofList ("$.".toList ++ pathText path)), .sign [')'], direction]

/-- Order terms that can be read back. -/
structure Readable (t : OrderTerm) : Prop where
  column : '\x00' ∉ t.column.toList
  path : ∀ c ∈ pathText t.path, c ≠ '\'' ∧ c ≠ '\x00'

theorem doubleQuotes_of_not_mem {quote : Char} {chars : List Char} (h : quote ∉ chars) :
    doubleQuotes quote chars = chars := by
  induction chars with
  | nil => rfl
  | cons c rest ih =>
    rw [List.mem_cons, not_or] at h
    rw [doubleQuotes, if_neg (Ne.symm h.1), ih h.2]

theorem readThrough_path {chars : List Char} (h : ∀ c ∈ chars, c ≠ '\'' ∧ c ≠ '\x00') :
    ReadThrough [.fixed (", '$.".toList ++ chars ++ ['\'', ')'])]
      [.sign [','], .text (String.ofList ("$.".toList ++ chars)), .sign [')']] := by
  intro tokens values
  have hz : '\x00' ∉ chars := fun hmem => (h _ hmem).2 rfl
  have hq : '\'' ∉ chars := fun hmem => (h _ hmem).1 rfl
  have hscan := Scanner.scan_doubleQuotes (.sign [','] :: tokens) values .single hz "$.".toList
  rw [show Quote.single.char = '\'' from rfl, doubleQuotes_of_not_mem hq] at hscan
  have hchars : [Piece.fixed (", '$.".toList ++ chars ++ ['\'', ')'])].flatMap Piece.chars =
      ", '$.".toList ++ (chars ++ ['\'']) ++ [')'] := by simp [Piece.chars]
  have hopen : Scanner.scan ⟨tokens, values, .nothing⟩ ", '$.".toList =
    some ⟨.sign [','] :: tokens, values, .quoted .single "$.".toList⟩ := rfl
  rw [show params [.fixed (", '$.".toList ++ chars ++ ['\'', ')'])] ++ values = values from rfl,
    hchars, Scanner.scan_append, Scanner.scan_append, hopen, Option.bind_some, hscan,
    Option.bind_some]
  rfl

theorem Readable.readAs {t : OrderTerm} (h : t.Readable) : ReadAs t.pieces t.tokens := by
  obtain ⟨column, path, descending⟩ := t
  have hcolumn := readAs_name h.column
  have hdirection : ReadAs [.ofString (if descending then " DESC" else " ASC")]
      [.word (if descending then "DESC" else "ASC").toList] := by
    cases descending <;> exact fun _ _ => rfl
  have hblank : StartsApart [.ofString (if descending then " DESC" else " ASC")] := by
    cases descending <;> exact ⟨' ', _, rfl, rfl⟩
  cases path with
  | nil => exact hcolumn.append hblank hdirection
  | cons first rest =>
    have hopen : ReadThrough [.ofString "json_extract("]
      [.word "json_extract".toList, .sign ['(']] := fun _ _ => rfl
    have hpath := (readThrough_path h.path).append_readAs hdirection
    exact hopen.append_readAs (hcolumn.append ⟨',', _, rfl, rfl⟩ hpath)

theorem plain_tokens (k : Keyword) (t : OrderTerm) : .keyword k ∉ t.tokens := by
  obtain ⟨column, path, descending⟩ := t
  cases path <;> simp [tokens]

end OrderTerm

/-- The keys that rows are ordered by, behind their words, if there are any. -/
def orderLine : List OrderTerm → List Piece
  | [] => []
  | order => .ofString " ORDER BY " :: commas (order.map OrderTerm.pieces)

def orderTokens : List OrderTerm → List Token
  | [] => []
  | order =>
    [.keyword .ORDER, .word "BY".toList] ++ joinWith [.sign [',']] (order.map OrderTerm.tokens)

theorem trails_order {order : List OrderTerm} (ho : ∀ term ∈ order, term.Readable) :
    Trails (orderLine order) (orderTokens order) := by
  cases order with
  | nil => exact trails_nil
  | cons first rest =>
    have hwords : ReadThrough [.ofString " ORDER BY "] [.keyword .ORDER, .word "BY".toList] :=
      fun _ _ => rfl
    have hterms := readAs_commas fun term hterm => (ho term hterm).readAs
    have hplain : .keyword .WHERE ∉ joinWith [.sign [',']] ((first :: rest).map OrderTerm.tokens) :=
      plain_joinWith fun term _ => term.plain_tokens .WHERE
    refine ⟨hwords.append_readAs hterms, ?_, rfl, .inr ⟨' ', _, rfl, rfl⟩⟩
    rw [orderTokens, List.mem_append, not_or]
    · exact ⟨by simp, hplain⟩
    · exact List.cons_ne_nil _ _

/-- The window, if there is one: how many rows to show, and then how many to skip. -/
def windowLine : Option RowWindow → List Piece
  | none => []
  | some window =>
    [.ofString " LIMIT ", .param (.integer window.limit), .ofString " OFFSET ",
      .param (.integer window.offset)]

def windowTokens : Option RowWindow → List Token
  | none => []
  | some window =>
    [.keyword .LIMIT, .value (.integer window.limit), .word "OFFSET".toList,
      .value (.integer window.offset)]

theorem trails_window (window : Option RowWindow) :
    Trails (windowLine window) (windowTokens window) := by
  cases window with
  | none => exact trails_nil
  | some window =>
    have hlimit : ReadThrough [.ofString " LIMIT "] [.keyword .LIMIT] := fun _ _ => rfl
    have hoffset : ReadThrough [.ofString " OFFSET "] [.word "OFFSET".toList] := fun _ _ => rfl
    have hcount := hlimit.append (readThrough_param (.integer window.limit))
    have hskip := hoffset.append (readThrough_param (.integer window.offset))
    exact ⟨(hcount.append hskip).readAs, by simp [windowTokens], rfl, .inr ⟨' ', _, rfl, rfl⟩⟩

namespace Select

def front (table : String) (columns : List String) : List Piece :=
  .ofString "SELECT " :: commas (columns.map fun name => [.name name]) ++
    [.ofString " FROM ", .name table]

def frontTokens (table : String) (columns : List String) : List Token :=
  .word "SELECT".toList :: joinWith [.sign [',']] (columns.map fun name => [.name name]) ++
    [.word "FROM".toList, .name table]

theorem leads {table : String} {columns : List String} (hz : '\x00' ∉ table.toList)
    (hcolumns : ∀ name ∈ columns, '\x00' ∉ name.toList) :
    Leads (front table columns) (frontTokens table columns) := by
  have hselect : ReadThrough [.ofString "SELECT "] [.word "SELECT".toList] := fun _ _ => rfl
  have hfrom : ReadThrough [.ofString " FROM "] [.word "FROM".toList] := fun _ _ => rfl
  have hnames := readAs_commas fun name hname => readAs_name (hcolumns name hname)
  have hplain : .keyword .WHERE ∉
      joinWith [.sign [',']] (columns.map fun name => [Token.name name]) :=
    plain_joinWith fun _ _ => by simp
  have hreads := (hselect.append_readAs hnames).append ⟨' ', _, rfl, rfl⟩
    (hfrom.append_readAs (readAs_name hz))
  exact ⟨hreads, by simp [frontTokens, hplain]⟩

/-- The order and the window follow the condition. -/
theorem pieces_eq (s : Select) : s.pieces = front s.table s.columns ++ whereLine s.condition ++
    (orderLine s.order ++ windowLine s.window) := by
  rw [← List.append_assoc]
  rfl

theorem conditionOf_pieces {s : Select} (hz : '\x00' ∉ s.table.toList)
    (hcolumns : ∀ name ∈ s.columns, '\x00' ∉ name.toList) (ho : ∀ term ∈ s.order, term.Readable)
    (hc : ∀ clause ∈ s.condition, clause.Readable) :
    conditionOf (text s.pieces) (params s.pieces) = some s.condition := by
  rw [pieces_eq]
  exact conditionOf_whereLine (leads hz hcolumns)
    ((trails_order ho).append (trails_window s.window)) hc

end Select

end RecordStore
