import RecordStore.Json.Basic
import RecordStore.Json.Words

/-!
# Reading JSON text

`Json.read` turns a text into a value, or says what is wrong with it and where. Arrays and objects
may nest 127 deep. The reading functions work on the characters that are left; a fault remembers what
was left when it was found, from which its line and column follow. How the digits of a number make a
double is up to the reader.
-/

namespace RecordStore.Json

inductive Problem
  | endInList
  | endInObject
  | endInString
  | endInValue
  | expectedColon
  | expectedItemEnd
  | expectedMemberEnd
  | expectedWord
  | expectedValue
  | invalidEscape
  | invalidNumber
  | numberOutOfRange
  | controlCharacter
  | keyNotString
  | loneSurrogate
  | trailingComma
  | trailingText
  | endInEscape
  | tooDeep
  | notSequence (found : String)
deriving DecidableEq

def Problem.text : Problem → String
  | .endInList => "EOF while parsing a list"
  | .endInObject => "EOF while parsing an object"
  | .endInString => "EOF while parsing a string"
  | .endInValue => "EOF while parsing a value"
  | .expectedColon => "expected `:`"
  | .expectedItemEnd => "expected `,` or `]`"
  | .expectedMemberEnd => "expected `,` or `\x7d`"
  | .expectedWord => "expected ident"
  | .expectedValue => "expected value"
  | .invalidEscape => "invalid escape"
  | .invalidNumber => "invalid number"
  | .numberOutOfRange => "number out of range"
  | .controlCharacter => "control character (\\u0000-\\u001F) found while parsing a string"
  | .keyNotString => "key must be a string"
  | .loneSurrogate => "lone leading surrogate in hex escape"
  | .trailingComma => "trailing comma"
  | .trailingText => "trailing characters"
  | .endInEscape => "unexpected end of hex escape"
  | .tooDeep => "recursion limit exceeded"
  | .notSequence found => "invalid type: " ++ found ++ ", expected a sequence"

/-- A problem, the characters that were left when it was found, and how many bytes of them are
looked at already. -/
structure Fault where
  problem : Problem
  rest : List Char
  ahead : Nat

def byteCount (text : List Char) : Nat := text.foldl (fun n c => n + c.utf8Size) 0

/-- The line and the column after `ahead` bytes of a text, starting from the given ones. Columns
count bytes; a line ends with a line feed. -/
def placeAfter (line column : Nat) : Nat → List Char → Nat × Nat
  | _, [] => (line, column)
  | ahead, c :: rest =>
    if ahead < c.utf8Size then (line, column + ahead)
    else if c = '\n' then placeAfter (line + 1) 0 (ahead - 1) rest
    else placeAfter line (column + c.utf8Size) (ahead - c.utf8Size) rest

/-- A problem with its line and column. -/
structure ReadError where
  problem : Problem
  line : Nat
  column : Nat
deriving DecidableEq

def ReadError.message (e : ReadError) : String :=
  e.problem.text ++ " at line " ++ toString e.line ++ " column " ++ toString e.column

def Fault.locate (text : List Char) (fault : Fault) : ReadError :=
  let (line, column) := placeAfter 1 0 (byteCount text - byteCount fault.rest + fault.ahead) text
  ⟨fault.problem, line, column⟩

/-- A fault at the next character, which counts as looked at. -/
def faultAt {α : Type} (problem : Problem) (text : List Char) : Except Fault (α × List Char) :=
  .error ⟨problem, text, 1⟩

/-- The text without the blanks it starts with. -/
def skipBlanks (text : List Char) : List Char :=
  text.dropWhile fun c => c = ' ' || c = '\n' || c = '\t' || c = '\r'

/-- Reads the rest of a word that stands for a value. -/
def readWord (value : Json) : List Char → List Char → Except Fault (Json × List Char)
  | [], text => .ok (value, text)
  | _ :: _, [] => .error ⟨.endInValue, [], 0⟩
  | e :: expected, c :: rest =>
    if c = e then readWord value expected rest else faultAt .expectedWord (c :: rest)

def hexValue? (c : Char) : Option Nat :=
  if c.isDigit then some (c.toNat - '0'.toNat)
  else if 'a' ≤ c ∧ c ≤ 'f' then some (c.toNat - 'a'.toNat + 10)
  else if 'A' ≤ c ∧ c ≤ 'F' then some (c.toNat - 'A'.toNat + 10)
  else none

def readHex (text : List Char) : Except Fault (Nat × List Char) :=
  match text with
  | a :: b :: c :: d :: rest =>
    match hexValue? a, hexValue? b, hexValue? c, hexValue? d with
    | some a, some b, some c, some d => .ok (a * 4096 + b * 256 + c * 16 + d, rest)
    | _, _, _, _ => .error ⟨.invalidEscape, text, 4⟩
  | _ =>
    if 4 ≤ byteCount text then .error ⟨.invalidEscape, text, 4⟩
    else .error ⟨.endInString, [], 0⟩

/-- Reads a given character between the two halves of a surrogate pair. -/
def readBetween (expected : Char) : List Char → Except Fault (Unit × List Char)
  | [] => .error ⟨.endInString, [], 0⟩
  | c :: rest => if c = expected then .ok ((), rest) else faultAt .endInEscape (c :: rest)

/-- Reads the digits of a character given by number, as one or as a pair of surrogates. -/
def readCodePoint (text : List Char) : Except Fault (Char × List Char) := do
  let (first, rest) ← readHex text
  if 0xDC00 ≤ first ∧ first ≤ 0xDFFF then .error ⟨.loneSurrogate, rest, 0⟩
  else if first < 0xD800 ∨ 0xDBFF < first then .ok (Char.ofNat first, rest)
  else
    let ((), rest) ← readBetween '\\' rest
    let ((), rest) ← readBetween 'u' rest
    let (second, rest) ← readHex rest
    if second < 0xDC00 ∨ 0xDFFF < second then .error ⟨.loneSurrogate, rest, 0⟩
    else .ok (Char.ofNat ((first - 0xD800) * 1024 + (second - 0xDC00) + 0x10000), rest)

/-- Reads what follows a backslash in a string. -/
def readEscape : List Char → Except Fault (Char × List Char)
  | [] => .error ⟨.endInString, [], 0⟩
  | c :: rest =>
    if c = '"' ∨ c = '\\' ∨ c = '/' then .ok (c, rest)
    else if c = 'b' then .ok ('\x08', rest)
    else if c = 'f' then .ok ('\x0c', rest)
    else if c = 'n' then .ok ('\n', rest)
    else if c = 'r' then .ok ('\r', rest)
    else if c = 't' then .ok ('\t', rest)
    else if c = 'u' then readCodePoint rest
    else faultAt .invalidEscape (c :: rest)

/-- Reads the rest of a string after its opening quote. The fuel bounds the number of
characters. -/
def readChars : Nat → List Char → Except Fault (List Char × List Char)
  | _, [] | 0, _ => .error ⟨.endInString, [], 0⟩
  | fuel + 1, c :: rest =>
    if c = '"' then .ok ([], rest)
    else if c = '\\' then do
      let (here, rest) ← readEscape rest
      let (more, rest) ← readChars fuel rest
      .ok (here :: more, rest)
    else if c.toNat < 0x20 then faultAt .controlCharacter (c :: rest)
    else do
      let (more, rest) ← readChars fuel rest
      .ok (c :: more, rest)

def readString (text : List Char) : Except Fault (String × List Char) := do
  let (here, rest) ← readChars text.length text
  .ok (String.ofList here, rest)

/-- The digits from the first one on with which the number they make up exceeds `2^31 - 1`. -/
def exceeding? (value : Nat) : List Char → Option (List Char)
  | [] => none
  | c :: rest =>
    let next := value * 10 + (c.toNat - '0'.toNat)
    if twoTo 31 ≤ next then some (c :: rest) else exceeding? next rest

section
variable (reading : FloatReading)

def readFloat (negative : Bool) (whole fraction : List Char) (exponent : Int) (rest : List Char) :
    Except Fault (Number × List Char) :=
  match reading negative whole fraction exponent with
  | .finite x => .ok (.float x, rest)
  | _ => .error ⟨.numberOutOfRange, rest, 0⟩

def readExponent (negative : Bool) (whole fraction text : List Char) :
    Except Fault (Number × List Char) :=
  let (down, rest) := Decimal.splitSign text
  let digits := rest.takeWhile Char.isDigit
  let after := rest.dropWhile Char.isDigit
  if digits = [] then
    if rest = [] then .error ⟨.endInValue, [], 0⟩ else faultAt .invalidNumber rest
  else
    let exponent : Int := Nat.ofDigitChars 10 digits 0
    match exceeding? 0 digits with
    | none => readFloat reading negative whole fraction (if down then -exponent else exponent) after
    | some overflow =>
      if Nat.ofDigitChars 10 (whole ++ fraction) 0 = 0 ∨ down then
        .ok (.float (.zero negative), after)
      else .error ⟨.numberOutOfRange, overflow ++ after, 0⟩

/-- The number after whole digits only: an integer if it fits, otherwise a double. Minus zero is a
double. -/
def readInteger (negative : Bool) (whole rest : List Char) : Except Fault (Number × List Char) :=
  let coefficient := Nat.ofDigitChars 10 whole 0
  let n : Int := if negative then -coefficient else coefficient
  if h : Number.InRange n then
    if negative ∧ coefficient = 0 then .ok (.float (.zero true), rest)
    else .ok (.integer n h, rest)
  else readFloat reading negative whole [] 0 rest

def readFraction (negative : Bool) (whole text : List Char) : Except Fault (Number × List Char) :=
  match text with
  | '.' :: rest =>
    let digits := rest.takeWhile Char.isDigit
    let after := rest.dropWhile Char.isDigit
    if digits = [] then
      if rest = [] then .error ⟨.endInValue, [], 0⟩ else faultAt .invalidNumber rest
    else match after with
      | 'e' :: rest | 'E' :: rest => readExponent reading negative whole digits rest
      | after => readFloat reading negative whole digits 0 after
  | 'e' :: rest | 'E' :: rest => readExponent reading negative whole [] rest
  | rest => readInteger reading negative whole rest

/-- Reads a number after its sign. -/
def readNumber (negative : Bool) : List Char → Except Fault (Number × List Char)
  | [] => .error ⟨.endInValue, [], 0⟩
  | c :: rest =>
    if c = '0' then
      if (rest.takeWhile Char.isDigit) = [] then readFraction reading negative ['0'] rest
      else faultAt .invalidNumber rest
    else if c.isDigit then
      readFraction reading negative (c :: rest.takeWhile Char.isDigit) (rest.dropWhile Char.isDigit)
    else faultAt .invalidNumber (c :: rest)

def readScalar : List Char → Except Fault (Json × List Char)
  | [] => .error ⟨.endInValue, [], 0⟩
  | c :: rest =>
    if c = 'n' then readWord .null "ull".toList rest
    else if c = 't' then readWord (.bool true) "rue".toList rest
    else if c = 'f' then readWord (.bool false) "alse".toList rest
    else if c = '"' then do
      let (s, rest) ← readString rest
      .ok (.string s, rest)
    else if c = '-' then do
      let (n, rest) ← readNumber reading true rest
      .ok (.number n, rest)
    else if c.isDigit then do
      let (n, rest) ← readNumber reading false (c :: rest)
      .ok (.number n, rest)
    else faultAt .expectedValue (c :: rest)

/-- Reads the key of a member after its opening quote, and the colon after it. -/
def readKey (text : List Char) : Except Fault (String × List Char) := do
  let (key, rest) ← readString text
  match skipBlanks rest with
  | [] => .error ⟨.endInObject, [], 0⟩
  | ':' :: rest => .ok (key, rest)
  | rest => faultAt .expectedColon rest

mutual

/-- Reads a value. `depth` is how many more arrays and objects may open, and the fuel bounds the
number of steps. -/
def readValue : Nat → Nat → List Char → Except Fault (Json × List Char)
  | 0, _, text => .error ⟨.endInValue, text, 0⟩
  | fuel + 1, depth, text =>
    match skipBlanks text with
    | '[' :: rest =>
      match depth with
      | 0 => faultAt .tooDeep ('[' :: rest)
      | depth + 1 => do
        let (items, rest) ← readItems fuel depth rest
        .ok (.array items, rest)
    | '{' :: rest =>
      match depth with
      | 0 => faultAt .tooDeep ('{' :: rest)
      | depth + 1 => do
        let (members, rest) ← readMembers fuel depth rest
        .ok (.ofMembers members, rest)
    | text => readScalar reading text

def readItems : Nat → Nat → List Char → Except Fault (List Json × List Char)
  | 0, _, text => .error ⟨.endInValue, text, 0⟩
  | fuel + 1, depth, text =>
    match skipBlanks text with
    | [] => .error ⟨.endInList, [], 0⟩
    | ']' :: rest => .ok ([], rest)
    | text => do
      let (item, rest) ← readValue fuel depth text
      let (items, rest) ← readMoreItems fuel depth rest
      .ok (item :: items, rest)

/-- Reads the further items of an array after one of them. -/
def readMoreItems : Nat → Nat → List Char → Except Fault (List Json × List Char)
  | 0, _, text => .error ⟨.endInValue, text, 0⟩
  | fuel + 1, depth, text =>
    match skipBlanks text with
    | [] => .error ⟨.endInList, [], 0⟩
    | ']' :: rest => .ok ([], rest)
    | ',' :: rest =>
      match skipBlanks rest with
      | ']' :: rest => faultAt .trailingComma (']' :: rest)
      | text => do
        let (item, rest) ← readValue fuel depth text
        let (items, rest) ← readMoreItems fuel depth rest
        .ok (item :: items, rest)
    | rest => faultAt .expectedItemEnd rest

def readMembers : Nat → Nat → List Char → Except Fault (List (String × Json) × List Char)
  | 0, _, text => .error ⟨.endInValue, text, 0⟩
  | fuel + 1, depth, text =>
    match skipBlanks text with
    | [] => .error ⟨.endInObject, [], 0⟩
    | '}' :: rest => .ok ([], rest)
    | '"' :: rest => do
      let (key, rest) ← readKey rest
      let (value, rest) ← readValue fuel depth rest
      let (members, rest) ← readMoreMembers fuel depth rest
      .ok ((key, value) :: members, rest)
    | rest => faultAt .keyNotString rest

/-- Reads the further members of an object after one of them. -/
def readMoreMembers : Nat → Nat → List Char → Except Fault (List (String × Json) × List Char)
  | 0, _, text => .error ⟨.endInValue, text, 0⟩
  | fuel + 1, depth, text =>
    match skipBlanks text with
    | [] => .error ⟨.endInObject, [], 0⟩
    | '}' :: rest => .ok ([], rest)
    | ',' :: rest =>
      match skipBlanks rest with
      | [] => .error ⟨.endInValue, [], 0⟩
      | '}' :: rest => faultAt .trailingComma ('}' :: rest)
      | '"' :: rest => do
        let (key, rest) ← readKey rest
        let (value, rest) ← readValue fuel depth rest
        let (members, rest) ← readMoreMembers fuel depth rest
        .ok ((key, value) :: members, rest)
      | rest => faultAt .keyNotString rest
    | rest => faultAt .expectedMemberEnd rest

end

def maxDepth : Nat := 127

/-- As many steps as reading a text can take. -/
def readingFuel (text : List Char) : Nat := 2 * text.length + 2

def readEnd {α : Type} (value : α) (rest : List Char) : Except Fault α :=
  match skipBlanks rest with
  | [] => .ok value
  | rest => .error ⟨.trailingText, rest, 1⟩

def readDocument (text : List Char) : Except Fault Json := do
  let (value, rest) ← readValue reading (readingFuel text) maxDepth text
  readEnd value rest

/-- A text as it is shown in a message about its type. -/
def shownChar (c : Char) : List Char :=
  if c = '"' then ['\\', '"']
  else if c = '\\' then ['\\', '\\']
  else if c = '\n' then ['\\', 'n']
  else if c = '\r' then ['\\', 'r']
  else if c = '\t' then ['\\', 't']
  else if c = '\x00' then ['\\', '0']
  else if c.toNat < 0x20 ∨ (0x7F ≤ c.toNat ∧ c.toNat ≤ 0x9F) ∨ c.toNat = 0xAD then
    ['\\', 'u', '{'] ++ Nat.toDigits 16 c.toNat ++ ['}']
  else [c]

/-- What a value other than an array is called in a message about its type. -/
def typeText : Json → String
  | .null => "null"
  | .bool b => "boolean `" ++ (if b then "true" else "false") ++ "`"
  | .number (.integer n h) => "integer `" ++ String.ofList (Number.integer n h).text ++ "`"
  | .number (.float x) => "floating point `" ++ String.ofList (Number.float x).text ++ "`"
  | .string s => "string \"" ++ String.ofList (s.toList.flatMap shownChar) ++ "\""
  | .array _ => "sequence"
  | .object _ => "map"

/-- Reads a whole text as an array of values. Another value is read as far as it is a scalar, and
refused. -/
def readArrayDocument (text : List Char) : Except Fault (List Json) :=
  match skipBlanks text with
  | '[' :: rest => do
    let (items, rest) ← readItems reading (readingFuel text) (maxDepth - 1) rest
    readEnd items rest
  | '{' :: rest => .error ⟨.notSequence (typeText (.object [])), '{' :: rest, 0⟩
  | scalar => do
    let (value, rest) ← readScalar reading scalar
    .error ⟨.notSequence (typeText value), rest, 0⟩

def readWith (text : String) : Except ReadError Json :=
  (readDocument reading text.toList).mapError (Fault.locate text.toList)

end

def read (text : String) : Except ReadError Json := readWith wordDouble text

def readArray (text : String) : Except ReadError (List Json) :=
  (readArrayDocument wordDouble text.toList).mapError (Fault.locate text.toList)

end RecordStore.Json
