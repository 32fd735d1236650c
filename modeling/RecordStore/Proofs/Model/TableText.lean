import RecordStore.Database.Image
import RecordStore.Proofs.Sql.Lexemes
import RecordStore.Proofs.Database.Rank
import RecordStore.Proofs.Model.Filled
import RecordStore.Proofs.Model.Validity

/-!
# The text of a table

The statement that makes the table of a model holds the defaults of its columns in its own text, where
no parameter can stand. Here that text is read as a list of columns, each with its name, its type and
what it is declared to be, and the columns come back as they were written. So no name and no default
ends its quotes, adds a column or hides what follows it.
-/

namespace RecordStore

/-! ## Reading a table -/

theorem ColumnType.ofWord?_word (type : ColumnType) : ofWord? type.word = some type := by
  cases type <;> decide

namespace ColumnSpec

/-- Gives a column the default that a numeral stands for. -/
def withNumber (chars : List Char) (spec : ColumnSpec) : Option ColumnSpec :=
  (SqlValue.ofNumeral? chars).map fun value => { spec with default := some value }

/-- Reads what a column is declared to be behind its type. -/
def readConstraints (spec : ColumnSpec) : List Lexeme → Option ColumnSpec
  | [] => some spec
  | .word "NOT" :: .word "NULL" :: rest => readConstraints { spec with notNull := true } rest
  | .word "UNIQUE" :: rest => readConstraints { spec with unique := true } rest
  | .word "DEFAULT" :: .word "NULL" :: rest => readConstraints { spec with default := some .null } rest
  | .word "DEFAULT" :: .text s :: rest =>
    readConstraints { spec with default := some (.text s) } rest
  | .word "DEFAULT" :: .number chars :: rest =>
    (withNumber chars spec).bind fun spec => readConstraints spec rest
  | .word "DEFAULT" :: .sign '-' :: .number chars :: rest =>
    (withNumber ('-' :: chars) spec).bind fun spec => readConstraints spec rest
  | _ => none

def ofLexemes? : List Lexeme → Option ColumnSpec
  | .name name :: .word word :: rest =>
    (ColumnType.ofWord? word).bind fun type => readConstraints ⟨name, type, false, false, none⟩ rest
  | _ => none

end ColumnSpec

namespace CreateTable

/-- The primary key, which is the first column of every table. -/
def keyLexemes : List Lexeme :=
  .name "_id" :: ["INTEGER", "PRIMARY", "KEY", "AUTOINCREMENT"].map .word

def opening (table : String) : List Lexeme :=
  ["CREATE", "TABLE", "IF", "NOT", "EXISTS"].map .word ++ [.name table, .sign '(']

/-- Reads the columns of a table up to the parenthesis that ends the statement. -/
def ofColumns? (table : String) (rest : List Lexeme) : Option CreateTable :=
  match rest.dropLast.splitOn (.sign ',') with
  | key :: columns =>
    if key = keyLexemes ∧ rest.getLast? = some (.sign ')') then
      (columns.mapM ColumnSpec.ofLexemes?).map fun columns => ⟨table, columns⟩
    else none
  | [] => none

def ofLexemes? : List Lexeme → Option CreateTable
  | .word "CREATE" :: .word "TABLE" :: .word "IF" :: .word "NOT" :: .word "EXISTS" :: .name table ::
      .sign '(' :: rest => ofColumns? table rest
  | _ => none

/-- The statement that a text makes a table with, read to its end. -/
def ofText? (text : String) : Option CreateTable :=
  (RecordStore.lexemes text.toList).bind ofLexemes?

end CreateTable

/-! ## Constants -/

/-- The lexemes of the text of a number: a hyphen in front of it is a sign of its own. -/
def numberLexemes : List Char → List Lexeme
  | '-' :: chars => [.sign '-', .number chars]
  | chars => [.number chars]

theorem numberLexemes_plain (chars : List Char) : .sign ',' ∉ numberLexemes chars := by
  unfold numberLexemes
  split <;> simp

theorem Lexes.signed {text : List Char} {coefficient : Nat} {exponent : Int}
    (h : MagnitudeText text coefficient exponent) (negative : Bool) :
    Lexes (if negative then '-' :: text else text)
      (numberLexemes (if negative then '-' :: text else text)) := by
  cases negative with
  | true => exact hyphen h
  | false =>
    obtain ⟨c, more, rfl, hc⟩ := Decimal.head?_magnitude h
    have hne : c ≠ '-' := by
      rcases hc with hdigit | rfl
      · exact (ne_sign_of_isDigit hdigit).1
      · decide
    have hlexemes : numberLexemes (c :: more) = [.number (c :: more)] := by
      unfold numberLexemes
      split
      next heq => exact absurd (List.cons.inj heq).1 hne
      · rfl
    rw [if_neg Bool.false_ne_true, hlexemes]
    exact number h

namespace SqlValue

def lexemes : SqlValue → List Lexeme
  | .null => [.word "NULL"]
  | .text s => [.text s]
  | v => numberLexemes v.literal

variable {v : SqlValue}

theorem lexemes_plain (v : SqlValue) : .sign ',' ∉ v.lexemes := by
  cases v with
  | null | text => simp [lexemes]
  | integer | real => exact numberLexemes_plain _

theorem lexes_literal (h : v.Finite) : Lexes v.literal v.lexemes := by
  cases v with
  | null => exact Lexes.word (s := "NULL") (by decide)
  | text s => exact .text s
  | integer n =>
    have hm := MagnitudeText.mk
      (.whole (Nat.toDigits_ne_nil (b := 10) (n := n.toInt.natAbs)) (isDigit_toDigits _)) .none
    rw [List.append_nil] at hm
    have hlexes := Lexes.signed hm (decide (n.toInt < 0))
    simp only [decide_eq_true_eq] at hlexes
    exact hlexes
  | real x =>
    obtain ⟨x, rfl⟩ := h x rfl
    obtain ⟨text, _, _, htext, hm, -⟩ := FloatStyle.literal.magnitudeText_text x
    have hlexes := Lexes.signed hm x.negative
    rw [← htext] at hlexes
    exact hlexes

end SqlValue

/-! ## Constants that are read -/

namespace SqlValue

theorem ofNumeral?_integer (n : Int64) :
    ofNumeral? (SqlValue.integer n).literal = some (.integer n) := by
  have hn : integerOfText? (SqlValue.integer n).literal = some n.toInt := by
    have hread := integerOfText?_toString n.toInt
    rwa [toList_toString] at hread
  simp only [ofNumeral?, hn, if_pos (fitsInt64_toInt n), Int64.ofInt_toInt]

/-- The text of a double has a point or an exponent, and so is not read as an integer. -/
theorem ofNumeral?_real (x : Binary64) : ofNumeral? (SqlValue.real (.finite x)).literal =
    some (SqlValue.real (.finite x)).asConstant := by
  obtain ⟨d, hdecimal, _, hmark⟩ := FloatStyle.literal.decimalText_text x
  have hinteger : integerOfText? (FloatStyle.literal.text x) = none := by
    refine Option.eq_none_iff_forall_ne_some.mpr fun n hn => ?_
    have hdigits := isDigit_of_integerText (integerOfText?_eq_some_iff.mp hn)
    rcases hmark rfl with hpoint | hletter
    · exact absurd (hdigits '.' hpoint) (by decide)
    · exact absurd (hdigits 'e' hletter) (by decide)
  have htext : Decimal.ofText? (FloatStyle.literal.text x) = some d :=
    Decimal.ofText?_eq_some_iff.mpr hdecimal
  show ofNumeral? (FloatStyle.literal.text x) = _
  simp only [ofNumeral?, hinteger, asConstant, Binary64.reread, htext, Option.map_some,
    Option.getD_some]

end SqlValue

namespace ColumnSpec

variable {c : ColumnSpec}

theorem readConstraints_number (spec : ColumnSpec) {chars : List Char} {value : SqlValue}
    (h : SqlValue.ofNumeral? chars = some value) :
    readConstraints spec (.word "DEFAULT" :: numberLexemes chars) =
      some { spec with default := some value } := by
  unfold numberLexemes
  split <;> simp [readConstraints, withNumber, h]

/-- A default is read from its lexemes as a constant. -/
theorem readConstraints_default (spec : ColumnSpec) {v : SqlValue} (h : v.Finite) :
    readConstraints spec (.word "DEFAULT" :: v.lexemes) =
      some { spec with default := some v.asConstant } := by
  cases v with
  | null | text => rfl
  | integer n => exact readConstraints_number spec (SqlValue.ofNumeral?_integer n)
  | real x =>
    obtain ⟨x, rfl⟩ := h x rfl
    exact readConstraints_number spec (SqlValue.ofNumeral?_real x)

/-- The column as the database reads it. -/
def asRead (c : ColumnSpec) : ColumnSpec := { c with default := c.default.map SqlValue.asConstant }

/-- The lexemes of a column. -/
def lexemes (c : ColumnSpec) : List Lexeme :=
  [.name c.name, .word c.type.word]
    ++ (if c.notNull then [.word "NOT", .word "NULL"] else [])
    ++ (if c.unique then [.word "UNIQUE"] else [])
    ++ match c.default with
      | none => []
      | some value => .word "DEFAULT" :: value.lexemes

theorem lexemes_plain (c : ColumnSpec) : .sign ',' ∉ c.lexemes := by
  obtain ⟨name, type, notNull, unique, default⟩ := c
  cases notNull <;> cases unique <;> cases default <;> simp [lexemes, SqlValue.lexemes_plain]

theorem lexes_pieces (h : ∀ v ∈ c.default, v.Finite) :
    Lexes (c.pieces.flatMap Piece.chars) c.lexemes := by
  have hname : Lexes ([.name c.name, .ofString (" " ++ c.type.word)].flatMap Piece.chars)
      [.name c.name, .word c.type.word] := by
    have hword : isIdentifier c.type.word = true := by cases c.type <;> decide
    have hlexes := (Lexes.name c.name).append (Lexes.word hword).blank
    simpa [Piece.chars, Piece.ofString] using hlexes
  have hnotNull : Follows ((if c.notNull then [Piece.ofString " NOT NULL"] else []).flatMap Piece.chars)
      (if c.notNull then [.word "NOT", .word "NULL"] else []) := by
    cases c.notNull
    · exact .nil
    · exact Follows.words ["NOT", "NULL"] (by decide)
  have hunique : Follows ((if c.unique then [Piece.ofString " UNIQUE"] else []).flatMap Piece.chars)
      (if c.unique then [.word "UNIQUE"] else []) := by
    cases c.unique
    · exact .nil
    · exact Follows.words ["UNIQUE"] (by decide)
  unfold pieces lexemes
  simp only [List.flatMap_append]
  refine ((hname.append hnotNull).append hunique).append ?_
  cases hdefault : c.default with
  | none => exact .nil
  | some v =>
    have hvalue := (SqlValue.lexes_literal (h v hdefault)).blank
    have hlexes := (Follows.words ["DEFAULT"] (by decide)).append hvalue
    simpa [Piece.chars, Piece.ofString] using hlexes

theorem params_pieces (c : ColumnSpec) : Piece.params c.pieces = [] := by
  obtain ⟨name, type, notNull, unique, default⟩ := c
  cases notNull <;> cases unique <;> cases default <;> rfl

theorem ofLexemes?_lexemes (h : ∀ v ∈ c.default, v.Finite) :
    ofLexemes? c.lexemes = some c.asRead := by
  obtain ⟨name, type, notNull, unique, default⟩ := c
  cases default with
  | none =>
    cases notNull <;> cases unique <;>
      simp [lexemes, ofLexemes?, ColumnType.ofWord?_word, readConstraints, asRead]
  | some v =>
    have hv := h v rfl
    cases notNull <;> cases unique <;>
      simp [lexemes, ofLexemes?, ColumnType.ofWord?_word, readConstraints,
        readConstraints_default _ hv, asRead]

end ColumnSpec

namespace CreateTable

variable {s : CreateTable}

/-- The table as the database reads it. -/
def asRead (s : CreateTable) : CreateTable := { s with columns := s.columns.map ColumnSpec.asRead }

/-- The lexemes of the statement that makes a table. -/
def lexemes (s : CreateTable) : List Lexeme :=
  opening s.table ++ joinWith [.sign ','] (keyLexemes :: s.columns.map ColumnSpec.lexemes) ++ [.sign ')']

theorem lexes_columns (h : ∀ c ∈ s.columns, ∀ v ∈ c.default, v.Finite) :
    Lexes ((Piece.commas ([.name "_id", .ofString " INTEGER PRIMARY KEY AUTOINCREMENT"] ::
        s.columns.map ColumnSpec.pieces)).flatMap Piece.chars)
      (joinWith [.sign ','] (keyLexemes :: s.columns.map ColumnSpec.lexemes)) := by
  have hkey : Lexes ([.name "_id", .ofString " INTEGER PRIMARY KEY AUTOINCREMENT"].flatMap Piece.chars)
      keyLexemes := (Lexes.name "_id").append
        (.words ["INTEGER", "PRIMARY", "KEY", "AUTOINCREMENT"] (by decide))
  have hcolumns : List.Forall₂ Lexes ((s.columns.map ColumnSpec.pieces).map (List.flatMap Piece.chars))
      (s.columns.map ColumnSpec.lexemes) := by
    rw [List.map_map, List.forall₂_map_left_iff, List.forall₂_map_right_iff, List.forall₂_same]
    exact fun c hc => ColumnSpec.lexes_pieces (h c hc)
  rw [Piece.commas, flatMap_joinWith]
  exact Lexes.commas (.cons hkey hcolumns)

theorem lexes_pieces (h : ∀ c ∈ s.columns, ∀ v ∈ c.default, v.Finite) :
    Lexes (s.pieces.flatMap Piece.chars) s.lexemes := by
  have hcolumns := lexes_columns h
  have hwords : Follows _ _ := .words ["TABLE", "IF", "NOT", "EXISTS"] (by decide)
  have hopening := ((Lexes.word (s := "CREATE") (by decide)).append hwords).append
    (Lexes.name s.table).blank
  unfold pieces lexemes
  generalize Piece.commas (_ :: s.columns.map ColumnSpec.pieces) = columns at hcolumns ⊢
  have hclosed := hcolumns.append (Lexes.sign (c := ')') (by decide) Follows.nil.lexes)
  have hall := hopening.append (Lexes.sign (c := '(') (by decide) hclosed).lexes.blank
  simpa [opening, Piece.chars, Piece.ofString] using hall

theorem ofLexemes?_lexemes (h : ∀ c ∈ s.columns, ∀ v ∈ c.default, v.Finite) :
    ofLexemes? s.lexemes = some s.asRead := by
  have hparts : ∀ part ∈ keyLexemes :: s.columns.map ColumnSpec.lexemes, .sign ',' ∉ part := by
    rw [List.forall_mem_cons, List.forall_mem_map]
    exact ⟨by decide, fun c _ => c.lexemes_plain⟩
  have hcolumns := mapM_map_of_found fun c hc => ColumnSpec.ofLexemes?_lexemes (h c hc)
  have hopening : ∀ rest, ofLexemes? (opening s.table ++ rest) = ofColumns? s.table rest := fun _ => rfl
  rw [lexemes, List.append_assoc, hopening, ofColumns?, List.dropLast_concat, joinWith_eq_intercalate,
    List.splitOn_intercalate _ hparts (List.cons_ne_nil _ _), List.getLast?_concat]
  simp only [and_self, if_true, hcolumns, Option.map_some, asRead]

/-- The statement that makes a table has no parameters. -/
theorem params_pieces (s : CreateTable) : Piece.params s.pieces = [] := by
  have hcolumns : (s.columns.map ColumnSpec.pieces).flatMap Piece.params = [] := by
    rw [List.flatMap_map]
    exact List.flatMap_eq_nil_iff.mpr fun c _ => c.params_pieces
  rw [pieces, Piece.params_append, Piece.params_append, Piece.commas, Piece.params_joinWith rfl,
    List.flatMap_cons, hcolumns]
  rfl

/-- The statement that makes a table is read from its text. -/
theorem ofText?_text (h : ∀ c ∈ s.columns, ∀ v ∈ c.default, v.Finite) :
    ofText? (Piece.text s.pieces) = some s.asRead := by
  rw [ofText?, Piece.text, String.toList_ofList, (lexes_pieces h).lexemes_eq, Option.bind_some,
    ofLexemes?_lexemes h]

end CreateTable

/-! ## The table of a model -/

/-- No kind stores an infinity. -/
theorem FieldKind.finite_of_encode? {kind : FieldKind} {value : Json} {cell : SqlValue}
    (h : kind.encode? value = some cell) : cell.Finite := by
  rintro x rfl
  unfold encode? at h
  split at h
  next =>
    obtain ⟨_, _, hinteger⟩ := Option.map_eq_some_iff.mp h
    cases hinteger
  next n =>
    cases h
    exact n.toDouble_finite
  all_goals cases h

namespace Field

variable {f : Field} {c : ColumnSpec}

theorem finite_of_encode {value : Json} {cell : SqlValue} (h : f.encode value = .ok cell) :
    cell.Finite := by
  rcases encode_gives h with ⟨-, rfl⟩ | ⟨-, hcell⟩
  · exact nofun
  · exact FieldKind.finite_of_encode? hcell

/-- A column is declared as its field says. -/
structure DeclaredAs (f : Field) (c : ColumnSpec) : Prop where
  name : c.name = f.name
  type : c.type = f.kind.columnType
  notNull : c.notNull = !f.nullable
  unique : c.unique = f.unique
  default : f.encodeDefault = .ok c.default

theorem declaredAs_of_columnSpec (h : Model.columnSpec f = .ok c) : f.DeclaredAs c := by
  obtain ⟨default, hdefault, heq⟩ := bind_eq_ok.mp h
  cases heq
  exact ⟨rfl, rfl, rfl, rfl, hdefault⟩

theorem DeclaredAs.finite (h : f.DeclaredAs c) : ∀ v ∈ c.default, v.Finite := by
  intro v hv
  have hdefault := h.default
  rw [hv, encodeDefault] at hdefault
  split at hdefault
  · cases hdefault
  · obtain ⟨_, hcell, heq⟩ := map_eq_ok.mp hdefault
    cases heq
    exact finite_of_encode hcell

/-- A column comes back as it was written exactly if the database reads its default as the value that
it is. -/
theorem DeclaredAs.asRead_iff (h : f.DeclaredAs c) : c.asRead = c ↔ f.ReadsDefault := by
  have hdefault := h.default
  obtain ⟨name, type, notNull, unique, default⟩ := c
  simp only [ColumnSpec.asRead, ColumnSpec.mk.injEq, true_and]
  unfold encodeDefault at hdefault
  split at hdefault
  next hnone =>
    cases hdefault
    refine iff_of_true rfl fun _ n x hn _ => ?_
    cases hnone.symm.trans hn
  next value hvalue =>
    obtain ⟨cell, hencode, heq⟩ := map_eq_ok.mp hdefault
    cases heq
    rw [Option.map_some, Option.some.injEq]
    constructor
    · intro hsame hkind n x hn hx
      cases hvalue.symm.trans hn
      rw [encode_float hkind hencode, hx] at hsame
      exact SqlValue.real.inj hsame
    · intro hreads
      unfold SqlValue.asConstant
      split
      next x =>
        obtain ⟨hkind, n, rfl, hx⟩ := real_of_encode hencode
        rw [hreads hkind n x hvalue hx]
      next => rfl

end Field

namespace Model

/-- Quotes are not broken out of. A quoted text and a quoted name are read back whatever they hold,
and what stands behind them is left as it is. So the statement that makes the table of a valid model,
which has no parameters, declares each column as its field says, and is read as the table of the
model. A default of a field of doubles is read as the real that the database makes of its text; the
column comes back with the very default that the field encodes exactly if that real is the encoded
one, and always if the field is of another kind. A zero character in a default is read like any other
here. A database ends the text of a statement there and refuses it. -/
theorem table_read_back (m : Model) :
    (∀ (s : String) (rest : List Char), rest.head? ≠ some '\'' →
      readQuoted '\'' ((SqlValue.text s).literal ++ rest) = some (s.toList, rest)) ∧
    (∀ (s : String) (rest : List Char), rest.head? ≠ some '"' →
      readQuoted '"' (quotedName s ++ rest) = some (s.toList, rest)) ∧
    (m.validate = .ok () → ∃ s, m.createTable = .ok s ∧
      CreateTable.ofText? (Piece.text s.pieces) = some s.asRead ∧ Piece.params s.pieces = [] ∧
      s.table = m.tableName ∧ List.Forall₂ Field.DeclaredAs m.fields s.columns ∧
      List.Forall₂ (fun f c => c.asRead = c ↔ f.ReadsDefault) m.fields s.columns) := by
  refine ⟨fun s rest h => readQuoted_quoted h, fun s rest h => readQuoted_quoted h, fun hm => ?_⟩
  obtain ⟨specs, hspecs, hs⟩ := createTable_of_valid hm
  have hdeclared : List.Forall₂ Field.DeclaredAs m.fields specs :=
    (mapM_eq_ok_iff.mp hspecs).imp fun _ _ => Field.declaredAs_of_columnSpec
  have hfinite := forall_mem_right hdeclared fun _ _ => Field.DeclaredAs.finite
  exact ⟨_, hs, CreateTable.ofText?_text hfinite, CreateTable.params_pieces _, rfl, hdeclared,
    hdeclared.imp fun _ _ => Field.DeclaredAs.asRead_iff⟩

/-- A model whose defaults hold quotes, commas, parentheses, question marks and comments. -/
def quotations : Model := ⟨"Quotations", none, [
  ⟨"remark", .text, false, false, some (.string "it's \"so\", (no?) -- /* DEFAULT ''); */")⟩,
  ⟨"source", .json, true, true, some (.object [("a'b", .string "',(?")])⟩,
  ⟨"weight", .float, true, false, some (.number (.integer (-2) (by decide)))⟩]⟩

/-- The table of the model is read back, and so are a text that ends in a quote in front of another text
and a name that ends in one in front of another name. -/
theorem quotations_read_back :
    readQuoted '\'' ((SqlValue.text "it's '").literal ++ ", ''".toList) =
      some ("it's '".toList, ", ''".toList) ∧
    readQuoted '"' (quotedName "so\"" ++ ", \"\"".toList) = some ("so\"".toList, ", \"\"".toList) ∧
    quotations.validate = .ok () ∧ ∃ s, quotations.createTable = .ok s ∧
      CreateTable.ofText? (Piece.text s.pieces) = some s.asRead ∧ Piece.params s.pieces = [] ∧
      s.table = "quotations" ∧ List.Forall₂ Field.DeclaredAs quotations.fields s.columns ∧
      List.Forall₂ (fun f c => c.asRead = c ↔ f.ReadsDefault) quotations.fields s.columns :=
  have hvalid : quotations.validate = .ok () := rfl
  have hread := table_read_back quotations
  ⟨hread.1 _ _ (by decide), hread.2.1 _ _ (by decide), hvalid, hread.2.2 hvalid⟩

end Model

/-- A default whose quotes were not written twice would add a column. -/
example : CreateTable.ofText? ("CREATE TABLE IF NOT EXISTS \"t\" " ++
    "(\"_id\" INTEGER PRIMARY KEY AUTOINCREMENT, \"a\" TEXT DEFAULT 'x', \"b\" TEXT DEFAULT '')") =
      some ⟨"t", [⟨"a", .text, false, false, some (.text "x")⟩,
        ⟨"b", .text, false, false, some (.text "")⟩]⟩ := by
  decide +kernel

end RecordStore
