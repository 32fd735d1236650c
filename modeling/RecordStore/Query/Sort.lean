import RecordStore.Error
import RecordStore.Text.Identifier
import RecordStore.Text.Blank
import RecordStore.Text.Joined

/-!
# Sort orders

A sort order is a list of keys, each a path and a direction. It is written as a text of fields with
commas between them, as an object from fields to directions, or as a list of pairs. A field names a
column or, with points, a path inside a JSON column; a minus in front of it means descending order.
-/

namespace RecordStore

/-- One key of a sort order: a column, the path inside it, and the direction. -/
structure SortKey where
  column : String
  subkeys : List String
  descending : Bool
deriving DecidableEq

namespace SortKey

def path (key : SortKey) : List String := key.column :: key.subkeys

/-- The text of a key: a minus for descending order and the path with double underscores. -/
def text (key : SortKey) : String :=
  String.ofList ((if key.descending then ['-'] else [])
    ++ joinWith "__".toList (key.path.map String.toList))

/-- The key that a field stands for, if its segments are identifiers. -/
def ofChars? (field : List Char) : Option SortKey :=
  let (descending, name) := match field with
    | '-' :: name => (true, name)
    | name => (false, name)
  let segments := splitAtEvery '.' name
  if segments.all isIdentifierChars then
    match segments.map String.ofList with
    | [] => none
    | column :: subkeys => some ⟨column, subkeys, descending⟩
  else none

/-- What a direction does to a key: one keeps it, minus one turns it around. -/
def direct? (key : SortKey) : Json → Option SortKey
  | .number n =>
    if n.toDouble.compareValue (.ofInt 1) = .eq then some key
    else if n.toDouble.compareValue (.ofInt (-1)) = .eq then
      some { key with descending := !key.descending }
    else none
  | _ => none

def ofPair (field : String) (direction : Json) : Except QueryError SortKey :=
  match ofChars? field.toList with
  | none => .error (.invalidSortKey (.string field))
  | some key =>
    match key.direct? direction with
    | some key => .ok key
    | none => .error (.invalidSortDirection direction)

/-- The key of an item of a list, which must be a pair of a field and a direction. -/
def ofItem : Json → Except QueryError SortKey
  | .array [.string field, direction] => ofPair field direction
  | .array [key, _] => .error (.invalidSortKey key)
  | item => .error (.invalidSortItem item)

def ofField (field : List Char) : Except QueryError SortKey :=
  match ofChars? (trim field) with
  | some key => .ok key
  | none => .error (.invalidSortField (String.ofList (trim field)))

def ofJson : Json → Except QueryError (List SortKey)
  | .string fields => (splitAtEvery ',' fields.toList).mapM ofField
  | .object members => members.mapM fun (field, direction) => ofPair field direction
  | .array items => items.mapM ofItem
  | value => .error (.invalidSortType value)

end SortKey

/-- Reads a sort order on a command line: JSON text if it starts like an object or a list, and the
text itself otherwise. -/
def readSort (argument : String) : Except QueryError Json :=
  match trimStart argument.toList with
  | '{' :: rest => (Json.read (String.ofList ('{' :: rest))).mapError .sortText
  | '[' :: rest => (Json.read (String.ofList ('[' :: rest))).mapError .sortText
  | _ => .ok (.string argument)

end RecordStore
