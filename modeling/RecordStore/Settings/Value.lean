import RecordStore.Json.Basic
import RecordStore.Text.Lowercase
import RecordStore.Text.Blank

/-!
# Values of settings

What a settings file holds, whatever its format: a tree of tables, arrays and scalars. The keys of
tables are compared without regard to case, except inside arrays. A key of the outermost table may
be a path such as `a.b` or `a[0]`.
-/

namespace RecordStore

inductive Setting
  | nil
  | bool (b : Bool)
  | integer (n : Int64)
  | float (x : Double)
  | text (s : String)
  | array (items : List Setting)
  | table (members : List (String × Setting))

namespace Setting

instance : Inhabited Setting := ⟨.nil⟩

/-- The members of a table; other values have none. -/
def members : Setting → List (String × Setting)
  | .table members => members
  | _ => []

def member? (members : List (String × Setting)) (key : String) : Option Setting :=
  (members.find? (·.1 = key)).map (·.2)

/-- The members with one more, which takes the place of another one with the same key. -/
def setMember (members : List (String × Setting)) (key : String) (value : Setting) :
    List (String × Setting) :=
  match members with
  | [] => [(key, value)]
  | (k, v) :: rest => if k = key then (k, value) :: rest else (k, v) :: setMember rest key value

mutual

/-- The value with a member set under the lower-case form of its key. A table is merged into the one
that is there. -/
def insert (root : Setting) (key : String) : Setting → Setting
  | .table incoming =>
    let target := (member? root.members (lowercase key)).getD (.table [])
    .table (setMember root.members (lowercase key) (insertAll target incoming))
  | .nil => .table (setMember root.members (lowercase key) .nil)
  | .bool b => .table (setMember root.members (lowercase key) (.bool b))
  | .integer n => .table (setMember root.members (lowercase key) (.integer n))
  | .float x => .table (setMember root.members (lowercase key) (.float x))
  | .text s => .table (setMember root.members (lowercase key) (.text s))
  | .array items => .table (setMember root.members (lowercase key) (.array items))

/-- The value with all members set, in order. -/
def insertAll (root : Setting) : List (String × Setting) → Setting
  | [] => root
  | (key, value) :: rest => insertAll (insert root key value) rest

end

/-- A step of a path: to the member of a table or to an item of an array. -/
inductive PathStep
  | key (name : String)
  | index (n : Nat)
deriving DecidableEq

/-- Whether a character may stand in a key of a path. -/
def isPathChar (c : Char) : Bool := c.isAlphanum || c = ' ' || c = '_' || c = '-'

/-- The steps of a path after its first key. -/
def pathTail : Nat → List Char → Option (List PathStep)
  | _, [] => some []
  | 0, _ => none
  | fuel + 1, '.' :: rest =>
    let name := rest.takeWhile isPathChar
    if name = [] then none
    else (pathTail fuel (rest.dropWhile isPathChar)).map (.key (String.ofList name) :: ·)
  | fuel + 1, '[' :: rest =>
    let rest := rest.dropWhile isBlank
    let digits := rest.takeWhile Char.isDigit
    match (rest.dropWhile Char.isDigit).dropWhile isBlank with
    | ']' :: rest =>
      if digits = [] then none
      else (pathTail fuel rest).map (.index (Nat.ofDigitChars 10 digits 0) :: ·)
    | _ => none
  | _, _ => none

/-- The steps of the path that a key stands for. A key that is no path is one step. -/
def pathOf (key : String) : List PathStep :=
  let text := key.toList
  let name := text.takeWhile isPathChar
  let tail := if name = [] then none else pathTail text.length (text.dropWhile isPathChar)
  match tail with
  | some steps => .key (String.ofList name) :: steps
  | none => [.key key]

/-- The items with the one at an index changed; missing items are `nil`. -/
def changeItem (change : Setting → Setting) : Nat → List Setting → List Setting
  | 0, [] => [change .nil]
  | 0, item :: rest => change item :: rest
  | n + 1, [] => .nil :: changeItem change n []
  | n + 1, item :: rest => item :: changeItem change n rest

/-- The value with what a path leads to set. What stands in the way gives room to a table or an
array. -/
def setPath (value : Setting) : List PathStep → Setting → Setting
  | [], root => root
  | [.key name], root => root.insert name value
  | .key name :: steps, root =>
    let inner := (member? root.members (lowercase name)).getD .nil
    .table (setMember root.members (lowercase name) (setPath value steps inner))
  | [.index n], .array items => .array (changeItem (fun _ => value) n items)
  | [.index n], _ => .array (changeItem (fun _ => value) n [])
  | .index n :: steps, .array items => .array (changeItem (setPath value steps) n items)
  | .index n :: steps, _ => .array (changeItem (setPath value steps) n [])

/-- The table of all members of a file, set one after another. -/
def ofMembers (members : List (String × Setting)) : Setting :=
  members.foldl (fun root (key, value) => setPath value (pathOf key) root) (.table [])

/-- The number of a JSON value: an integer if it fits a signed word, otherwise the nearest
double. -/
def ofNumber (n : Number) : Setting :=
  match n.toInt64? with
  | some i => .integer i
  | none => .float n.toDouble

mutual

def ofJson : Json → Setting
  | .null => .nil
  | .bool b => .bool b
  | .number n => ofNumber n
  | .string s => .text s
  | .array items => .array (ofJsonItems items)
  | .object members => .table (ofJsonMembers members)

def ofJsonItems : List Json → List Setting
  | [] => []
  | item :: rest => ofJson item :: ofJsonItems rest

def ofJsonMembers : List (String × Json) → List (String × Setting)
  | [] => []
  | (key, value) :: rest => (key, ofJson value) :: ofJsonMembers rest

end

def insertSorted (member : String × Json) : List (String × Json) → List (String × Json)
  | [] => [member]
  | other :: rest =>
    if member.1 < other.1 then member :: other :: rest else other :: insertSorted member rest

mutual

/-- A setting as a JSON value. The members of tables are put in the order of their keys. -/
def toJson : Setting → Json
  | .nil => .null
  | .bool b => .bool b
  | .integer n => .ofInt64 n
  | .float (.finite x) => .number (.float x)
  | .float _ => .null
  | .text s => .string s
  | .array items => .array (itemsToJson items)
  | .table members => .object (membersToJson members)

def itemsToJson : List Setting → List Json
  | [] => []
  | item :: rest => toJson item :: itemsToJson rest

def membersToJson : List (String × Setting) → List (String × Json)
  | [] => []
  | (key, value) :: rest => insertSorted (key, toJson value) (membersToJson rest)

end

/-- A setting where a text is wanted: truth values and numbers count as their text. -/
def toText? : Setting → Option String
  | .text s => some s
  | .bool b => some (if b then "true" else "false")
  | .integer n => some (toString n.toInt)
  | .float x => some (String.ofList (x.text .plain))
  | _ => none

/-- A setting where a truth value is wanted: numbers count as true unless they are zero, and the
usual words count in any case. -/
def toBool? : Setting → Option Bool
  | .bool b => some b
  | .integer n => some (n ≠ 0)
  | .float x => some (x.compareValue (.finite (.zero false)) ≠ .eq)
  | .text s =>
    let word := lowercase s
    if word ∈ ["1", "true", "on", "yes"] then some true
    else if word ∈ ["0", "false", "off", "no"] then some false
    else none
  | _ => none

end Setting

end RecordStore
