import RecordStore.Database.Table
import RecordStore.Json.Reader

/-!
# Ordering rows

Rows are sorted by the values of their order terms, earlier terms first, and rows that agree in all
of them stay in the order in which they came. A term with a path looks into the JSON text of its
column.
-/

namespace RecordStore

/-- What a value found in JSON text counts as: truth values as one and zero, integers that fit no
signed word as doubles, other numbers as the reals that their text is read as, and arrays and objects
as their text. -/
def SqlValue.ofFound : Json → SqlValue
  | .null => .null
  | .bool b => .ofBool b
  | .number (.integer n h) => .ofNumber (.integer n h)
  | .number (.float x) => .real (x.reread .json)
  | .string s => .text s
  | .array items => .text (Json.array items).text
  | .object members => .text (Json.object members).text

/-- The value that a path leads to, member by member. -/
def Json.follow? : List String → Json → Option Json
  | [], value => some value
  | key :: path, .object members => (Json.member? members key).bind (Json.follow? path)
  | _ :: _, _ => none

/-- The text of a cell that is read as JSON. -/
def SqlValue.jsonText? : SqlValue → Option String
  | .null => none
  | .text s => some s
  | value =>
    match value.numberText with
    | .text s => some s
    | _ => none

namespace OrderTerm

def value (term : OrderTerm) (t : Table) (row : Row) : Except DatabaseFault SqlValue :=
  let cell := (t.read row term.column).2
  match term.path with
  | [] => .ok cell
  | path =>
    match cell.jsonText? with
    | none => .ok .null
    | some text =>
      match Json.readWith Json.nearestDouble text with
      | .ok value => .ok (((value.follow? path).map SqlValue.ofFound).getD .null)
      | .error _ => .error .malformedJson

end OrderTerm

def compareKeys : List OrderTerm → List SqlValue → List SqlValue → Ordering
  | term :: terms, a :: as, b :: bs =>
    let first := if term.descending then b.order a else a.order b
    first.then (compareKeys terms as bs)
  | _, _, _ => .eq

def sortRows (terms : List OrderTerm) (t : Table) (rows : List Row) :
    Except DatabaseFault (List Row) :=
  if terms = [] then .ok rows
  else do
    let keyed ← rows.mapM fun row => do
      let keys ← terms.mapM (·.value t row)
      pure (keys, row)
    .ok ((keyed.mergeSort fun a b => compareKeys terms a.1 b.1 ≠ .gt).map (·.2))

def RowWindow.show {α : Type} (window : Option RowWindow) (rows : List α) : List α :=
  match window with
  | none => rows
  | some window => (rows.drop window.offset.toInt.toNat).take window.limit.toInt.toNat

end RecordStore
