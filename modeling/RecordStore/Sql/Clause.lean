import RecordStore.Sql.Value
import RecordStore.Text.Joined

/-!
# SQL text in pieces

A statement is a sequence of pieces: fixed text, names that are quoted when written, and parameters
that are written as question marks. Its text and its list of parameters are read off the same
pieces, so that they cannot disagree. Conditions are trees of comparisons of a column with
parameters; joined conditions are always written in parentheses.
-/

namespace RecordStore

inductive Piece
  | fixed (chars : List Char)
  | name (s : String)
  | param (value : SqlValue)
deriving DecidableEq

namespace Piece

def ofString (s : String) : Piece := .fixed s.toList

def chars : Piece → List Char
  | .fixed chars => chars
  | .name s => quotedName s
  | .param _ => ['?']

def value? : Piece → Option SqlValue
  | .param value => some value
  | _ => none

def text (pieces : List Piece) : String := String.ofList (pieces.flatMap chars)

def params (pieces : List Piece) : List SqlValue := pieces.filterMap value?

/-- Sequences of pieces with commas between them. -/
def commas (parts : List (List Piece)) : List Piece := joinWith [.ofString ", "] parts

end Piece

inductive Relation
  | equal
  | notEqual
  | greater
  | atLeast
  | less
  | atMost
deriving DecidableEq

def Relation.sign : Relation → String
  | .equal => "="
  | .notEqual => "<>"
  | .greater => ">"
  | .atLeast => ">="
  | .less => "<"
  | .atMost => "<="

def Relation.holds : Relation → Ordering → Bool
  | .equal, order => order = .eq
  | .notEqual, order => order ≠ .eq
  | .greater, order => order = .gt
  | .atLeast, order => order ≠ .lt
  | .less, order => order = .lt
  | .atMost, order => order ≠ .gt

/-- A condition of a statement. -/
inductive Clause
  | compare (column : String) (relation : Relation) (operand : SqlValue)
  | isNull (column : String)
  | isNotNull (column : String)
  | oneOf (column : String) (operands : List SqlValue)
  | noneOf (column : String) (operands : List SqlValue)
  /-- A condition that always or never holds. -/
  | constant (holds : Bool)
  | all (parts : List Clause)
  | any (parts : List Clause)

namespace Clause

def operandPieces (operands : List SqlValue) : List Piece :=
  .ofString "(" :: (Piece.commas (operands.map fun value => [.param value]) ++ [.ofString ")"])

mutual

def pieces : Clause → List Piece
  | .compare column relation operand =>
    [.name column, .ofString (" " ++ relation.sign ++ " "), .param operand]
  | .isNull column => [.name column, .ofString " IS NULL"]
  | .isNotNull column => [.name column, .ofString " IS NOT NULL"]
  | .oneOf column operands => [.name column, .ofString " IN "] ++ operandPieces operands
  | .noneOf column operands => [.name column, .ofString " NOT IN "] ++ operandPieces operands
  | .constant true => [.ofString "1 = 1"]
  | .constant false => [.ofString "0 = 1"]
  | .all parts =>
    .ofString "(" :: (joinWith [.ofString " AND "] (partPieces parts) ++ [.ofString ")"])
  | .any parts =>
    .ofString "(" :: (joinWith [.ofString " OR "] (partPieces parts) ++ [.ofString ")"])

def partPieces : List Clause → List (List Piece)
  | [] => []
  | part :: rest => pieces part :: partPieces rest

end

/-- Several conditions as one, if there are any; a single one stands for itself. -/
def joined (join : List Clause → Clause) : List Clause → Option Clause
  | [] => none
  | [part] => some part
  | parts => some (join parts)

end Clause

end RecordStore
