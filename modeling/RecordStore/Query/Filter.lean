import RecordStore.Error
import RecordStore.Text.Identifier
import RecordStore.Text.Blank

/-!
# Filters

A filter is a tree of conditions on columns, joined by conjunctions and disjunctions. People write
it as a JSON object: a column with a value, with a comparison in a string such as `">=30"`, or with
an object of operators, and the keys `$and` and `$or` with lists of such objects. `Filter.ofJson`
accepts exactly those objects and keeps every condition in order.
-/

namespace RecordStore

inductive Comparison
  | equal
  | notEqual
  | greater
  | atLeast
  | less
  | atMost
  | oneOf
  | noneOf
deriving DecidableEq

namespace Comparison

def word : Comparison → String
  | .equal => "eq"
  | .notEqual => "ne"
  | .greater => "gt"
  | .atLeast => "gte"
  | .less => "lt"
  | .atMost => "lte"
  | .oneOf => "in"
  | .noneOf => "nin"

def all : List Comparison :=
  [.equal, .notEqual, .greater, .atLeast, .less, .atMost, .oneOf, .noneOf]

def ofWord? (word : String) : Option Comparison := all.find? (·.word = word)

def operator (c : Comparison) : String := "$" ++ c.word

def ofOperator? (key : String) : Option Comparison := all.find? (·.operator = key)

/-- Whether the comparison is with the items of a list. -/
def expectsList : Comparison → Bool
  | .oneOf | .noneOf => true
  | _ => false

end Comparison

structure Condition where
  column : String
  comparison : Comparison
  value : Json
deriving DecidableEq

inductive Filter
  | all (parts : List Filter)
  /-- Some of the parts holds; without parts there is no restriction. -/
  | any (parts : List Filter)
  | condition (c : Condition)

namespace Filter

/-- Equality with every member of a record. -/
def matching (record : Record) : Filter :=
  .all (record.map fun (column, value) => .condition ⟨column, .equal, value⟩)

mutual

/-- Whether a filter restricts nothing. A disjunction with an unrestricted part is unrestricted. -/
def isUnrestricted : Filter → Bool
  | .all parts => allUnrestricted parts
  | .any parts => parts.isEmpty || anyUnrestricted parts
  | .condition _ => false

def allUnrestricted : List Filter → Bool
  | [] => true
  | part :: rest => isUnrestricted part && allUnrestricted rest

def anyUnrestricted : List Filter → Bool
  | [] => false
  | part :: rest => isUnrestricted part || anyUnrestricted rest

end

/-- The marks that stand for a comparison in front of a number, longer ones first. -/
def marks : List (List Char × Comparison) :=
  [(['>', '='], .atLeast), (['>'], .greater), (['<', '='], .atMost), (['<'], .less),
    (['!', '='], .notEqual), (['='], .equal)]

/-- What a text means that is given for a column: a mark followed by a number compares with the
number, any other text is compared as it is. -/
def ofShorthand (column text : String) : Condition :=
  let marked := marks.find? fun (mark, _) => mark.isPrefixOf text.toList
  let number := marked.bind fun (mark, comparison) =>
    (Number.ofChars? (trim (text.toList.drop mark.length))).map (comparison, ·)
  match number with
  | some (comparison, n) => ⟨column, comparison, .number n⟩
  | none => ⟨column, .equal, .string text⟩

def ofOperator (column key : String) (value : Json) : Except QueryError Condition :=
  match Comparison.ofOperator? key, value with
  | none, _ => .error (.invalidFilterKey key)
  | some comparison, .array items => .ok ⟨column, comparison, .array items⟩
  | some comparison, value =>
    if comparison.expectsList then .error (.listExpected key) else .ok ⟨column, comparison, value⟩

/-- The conditions on a column that its value stands for. -/
def ofColumn (column : String) : Json → Except QueryError (List Condition)
  | .object operators => operators.mapM fun (key, value) => ofOperator column key value
  | .string text => .ok [ofShorthand column text]
  | .array items => .error (.invalidFilterValue (.array items))
  | value => .ok [⟨column, .equal, value⟩]

def ofMember (key : String) (value : Json) : Except QueryError (List Condition) :=
  match Comparison.ofOperator? key, value with
  | some _, .array _ => .error (.operatorWithoutColumn key)
  | some comparison, _ =>
    .error (if comparison.expectsList then .listExpected key else .operatorWithoutColumn key)
  | none, value =>
    if isIdentifier key then ofColumn key value else .error (.invalidFilterKey key)

mutual

def ofJson : Json → Except QueryError Filter
  | .object members => (ofMembers members).map .all
  | value => .error (.invalidFilterValue value)

def ofMembers : List (String × Json) → Except QueryError (List Filter)
  | [] => .ok []
  | (key, value) :: rest => do
    let here ←
      if key = "$and" ∨ key = "$or" then
        match value with
        | .array items => do
          let parts ← ofItems items
          pure [if key = "$and" then .all parts else .any parts]
        | _ => .error (.listExpected key)
      else (ofMember key value).map (List.map .condition)
    let more ← ofMembers rest
    .ok (here ++ more)

def ofItems : List Json → Except QueryError (List Filter)
  | [] => .ok []
  | item :: rest => do
    let part ← ofJson item
    let parts ← ofItems rest
    .ok (part :: parts)

end

end Filter

end RecordStore
