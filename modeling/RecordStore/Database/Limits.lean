import RecordStore.Sql.Statement
import RecordStore.Error

/-!
# Limits of statements

The database reads the text of a statement from left to right and keeps the symbols on a stack that
wait for the rest of their phrase. It refuses the statement where it first asks for too much: a
parameter too many, a symbol for which the stack has no room, or a condition of too many levels. What
a statement asks for is a list of demands in the order of its text. Further limits are checked when
the statement is read, some of them only after its table is found.
-/

namespace RecordStore

/-- How many parameters a statement may have. -/
def parameterLimit : Nat := 32766

/-- How many symbols there may be on the stack. -/
def symbolLimit : Nat := 99

/-- How many levels a condition may have. -/
def levelLimit : Nat := 1000

/-- How many columns a table, a row that is read, an order or a list of changes may have. -/
def columnLimit : Nat := 2000

/-- What a statement asks for at some place of its text. -/
inductive Demand
  | parameter
  /-- So many symbols are on the stack. -/
  | symbols (n : Nat)
  /-- A condition has so many levels. -/
  | levels (n : Nat)
deriving DecidableEq

namespace Clause

/-- The levels of a chain of conditions, given those of the conditions in front and behind. -/
def chain (front back : Nat) : Nat := max front back + 1

mutual

/-- The levels of a condition. A test against a single operand in parentheses is rewritten into a
comparison, which has one level more. -/
def levels : Clause → Nat
  | .compare .. | .isNull _ | .isNotNull _ | .constant _ => 2
  | .oneOf _ operands => if operands.length = 1 then 3 else 2
  | .noneOf _ operands => if operands.length = 1 then 4 else 3
  | .all parts | .any parts =>
    match partLevels parts with
    | [] => 0
    | first :: rest => rest.foldl chain first

def partLevels : List Clause → List Nat
  | [] => []
  | part :: rest => levels part :: partLevels rest

end

/-- What a test against operands in parentheses asks for: a single one is read to its end before the
parenthesis closes. -/
def operandDemands (held : Nat) : List SqlValue → List Demand
  | [] => [.symbols (held + 4)]
  | [_] => [.symbols (held + 4), .parameter, .symbols (held + 5)]
  | _ :: rest =>
    [.symbols (held + 4), .parameter, .symbols (held + 6)] ++ rest.map fun _ => .parameter

mutual

/-- What a condition asks for when so many symbols are held before it. -/
def demands (held : Nat) : Clause → List Demand
  | .compare .. => [.symbols (held + 3), .parameter]
  | .isNull _ | .constant _ => [.symbols (held + 3)]
  | .isNotNull _ => [.symbols (held + 4)]
  | .oneOf _ operands | .noneOf _ operands => operandDemands held operands
  | .all parts | .any parts =>
    .symbols (held + 1) :: (partDemands held none parts ++ [.symbols (held + 3)])

/-- What the parts of a condition in parentheses ask for, given the levels of the parts in front of
them. Each part is joined with those as soon as it is read. -/
def partDemands (held : Nat) (front : Option Nat) : List Clause → List Demand
  | [] => []
  | part :: rest =>
    match front with
    | none => demands (held + 1) part ++ partDemands held (some (levels part)) rest
    | some front =>
      let joined := chain front (levels part)
      demands (held + 3) part ++ .levels joined :: partDemands held (some joined) rest

end

end Clause

/-- What a condition asks for, if there is one, after so many symbols. -/
def whereDemands (held : Nat) : Option Clause → List Demand
  | none => []
  | some clause => clause.demands held

/-- What a window asks for, if there is one. -/
def windowDemands : Option RowWindow → List Demand
  | none => []
  | some _ => [.parameter, .parameter]

def Select.demands (s : Select) : List Demand := whereDemands 5 s.condition ++ windowDemands s.window

def Count.demands (s : Count) : List Demand := whereDemands 5 s.condition

/-- The levels of the condition whether a row exists. -/
def Exists.levels (s : Exists) : Nat :=
  match s.condition with
  | none => 1
  | some clause => clause.levels + 1

def Exists.demands (s : Exists) : List Demand := whereDemands 11 s.condition ++ [.levels s.levels]

def Insert.demands (s : Insert) : List Demand := s.cells.map fun _ => .parameter

def Update.demands (s : Update) : List Demand :=
  s.cells.map (fun _ => .parameter) ++ whereDemands 9 s.condition

def Delete.demands (s : Delete) : List Demand := whereDemands 6 s.condition

namespace Piece

/-- Where the parameter after so many others starts in the text, in bytes. -/
def parameterOffset (earlier : Nat) : List Piece → Nat
  | [] => 0
  | .param value :: rest =>
    match earlier with
    | 0 => 0
    | earlier + 1 => (text [.param value]).utf8ByteSize + parameterOffset earlier rest
  | piece :: rest => (text [piece]).utf8ByteSize + parameterOffset earlier rest

end Piece

/-- Grants a demand after so many parameters, and counts them. -/
def grant (pieces : List Piece) (parameters : Nat) : Demand → Except DatabaseFault Nat
  | .parameter =>
    if parameters = parameterLimit then
      .error (.tooManyParameters (Piece.text pieces) (Piece.parameterOffset parameters pieces))
    else .ok (parameters + 1)
  | .symbols n => if symbolLimit < n then .error .stackOverflow else .ok parameters
  | .levels n => if levelLimit < n then .error (.tooManyLevels levelLimit) else .ok parameters

/-- Reads the text of a statement. -/
def readText (pieces : List Piece) (demands : List Demand) : Except DatabaseFault Unit := do
  let _ ← demands.foldlM (grant pieces) 0

/-- Checks the size of a part of a statement. -/
def checkSize (what : String) (n : Nat) : Except DatabaseFault Unit :=
  if columnLimit < n then .error (.tooManyTerms what) else .ok ()

/-- Checks the levels of the two nested conditions whether a row exists. -/
def Exists.checkLevels (s : Exists) : Except DatabaseFault Unit :=
  match s.condition with
  | none => .ok ()
  | some clause =>
    if levelLimit < s.levels + clause.levels then .error (.tooManyLevels levelLimit) else .ok ()

end RecordStore
