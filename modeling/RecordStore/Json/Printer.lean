import RecordStore.Json.Basic
import RecordStore.Text.Joined

/-!
# The text of JSON values

`Json.chars` writes a value without blanks, `Json.prettyChars` over several lines. In strings only
quotes, backslashes and control characters are escaped, the latter with their short names where
they have one.
-/

namespace RecordStore.Json

def hexDigit (n : Nat) : Char := Nat.digitChar (n % 16)

def escaped (c : Char) : List Char :=
  if c = '"' then ['\\', '"']
  else if c = '\\' then ['\\', '\\']
  else if c = '\x08' then ['\\', 'b']
  else if c = '\t' then ['\\', 't']
  else if c = '\n' then ['\\', 'n']
  else if c = '\x0c' then ['\\', 'f']
  else if c = '\r' then ['\\', 'r']
  else if c.toNat < 0x20 then ['\\', 'u', '0', '0', hexDigit (c.toNat / 16), hexDigit c.toNat]
  else [c]

def escapedChars : List Char → List Char
  | [] => []
  | c :: rest => escaped c ++ escapedChars rest

def stringChars (s : String) : List Char := '"' :: (escapedChars s.toList ++ ['"'])

mutual

/-- The text of a value, without blanks. -/
def chars : Json → List Char
  | .null => "null".toList
  | .bool true => "true".toList
  | .bool false => "false".toList
  | .number n => n.text
  | .string s => stringChars s
  | .array [] => ['[', ']']
  | .array (item :: rest) => '[' :: (chars item ++ itemChars rest)
  | .object [] => ['{', '}']
  | .object ((key, value) :: rest) =>
    '{' :: (stringChars key ++ ':' :: (chars value ++ memberChars rest))

/-- The text of the further items of an array, and its end. -/
def itemChars : List Json → List Char
  | [] => [']']
  | item :: rest => ',' :: (chars item ++ itemChars rest)

/-- The text of the further members of an object, and its end. -/
def memberChars : List (String × Json) → List Char
  | [] => ['}']
  | (key, value) :: rest => ',' :: (stringChars key ++ ':' :: (chars value ++ memberChars rest))

end

def text (value : Json) : String := String.ofList value.chars

/-- A line break and the blanks before a line at the given depth. -/
def lineBreak (depth : Nat) : List Char := '\n' :: List.replicate (2 * depth) ' '

mutual

/-- The text of a value at the given depth, each item and member on a line of its own. -/
def prettyChars (depth : Nat) : Json → List Char
  | .array [] => ['[', ']']
  | .array (item :: rest) =>
    '[' :: (lineBreak (depth + 1) ++ prettyChars (depth + 1) item ++ prettyItemChars depth rest)
  | .object [] => ['{', '}']
  | .object ((key, value) :: rest) =>
    '{' :: (lineBreak (depth + 1) ++ stringChars key ++ ": ".toList ++ prettyChars (depth + 1) value
      ++ prettyMemberChars depth rest)
  | .null => "null".toList
  | .bool b => chars (.bool b)
  | .number n => n.text
  | .string s => stringChars s

def prettyItemChars (depth : Nat) : List Json → List Char
  | [] => lineBreak depth ++ [']']
  | item :: rest =>
    ',' :: (lineBreak (depth + 1) ++ prettyChars (depth + 1) item ++ prettyItemChars depth rest)

def prettyMemberChars (depth : Nat) : List (String × Json) → List Char
  | [] => lineBreak depth ++ ['}']
  | (key, value) :: rest =>
    ',' :: (lineBreak (depth + 1) ++ stringChars key ++ ": ".toList ++ prettyChars (depth + 1) value
      ++ prettyMemberChars depth rest)

end

/-- The text of a value, each item and member on a line of its own. -/
def pretty (value : Json) : String := String.ofList (prettyChars 0 value)

end RecordStore.Json
