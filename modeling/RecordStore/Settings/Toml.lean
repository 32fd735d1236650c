import RecordStore.Settings.Value

/-!
# Settings in TOML

Reads a TOML document: lines of keys with values, under headers of tables and of arrays of tables.
Dates and times become their text. A key may be set once, a table may have one header, and dotted
keys add only to tables that dotted keys made.
-/

namespace RecordStore.Toml

/-- How a table came to be: by its own header, by the header of a table inside it, or by a dotted
key. -/
inductive Origin
  | header
  | inner
  | dotted
deriving DecidableEq

/-- What stands under a key: a value, a table, or an array of tables, each of the headers adding
one. -/
inductive Entry
  | leaf (value : Setting)
  | table (origin : Origin) (members : List (String × Entry))
  | tables (items : List (List (String × Entry)))

/-- The members of a table that is being read. -/
abbrev Members := List (String × Entry)

instance : Inhabited Entry := ⟨.leaf .nil⟩

def entry? (members : Members) (key : String) : Option Entry :=
  (members.find? (·.1 = key)).map (·.2)

/-- The members with what stands under a key replaced. -/
def setEntry (members : Members) (key : String) (entry : Entry) : Members :=
  match members with
  | [] => [(key, entry)]
  | (k, e) :: rest => if k = key then (k, entry) :: rest else (k, e) :: setEntry rest key entry

mutual

def toSetting : Entry → Setting
  | .leaf value => value
  | .table _ members => .table (membersToSettings members)
  | .tables items => .array (tablesToSettings items)

def membersToSettings : List (String × Entry) → List (String × Setting)
  | [] => []
  | (key, entry) :: rest => (key, toSetting entry) :: membersToSettings rest

def tablesToSettings : List (List (String × Entry)) → List Setting
  | [] => []
  | members :: rest => .table (membersToSettings members) :: tablesToSettings rest

end

/-- Changes the table that a path of a header leads to, making tables on the way. Of an array of
tables the last one counts. -/
def alongHeader (change : Members → Option Members) : List String → Members → Option Members
  | [], members => change members
  | key :: path, members =>
    match entry? members key with
    | none => do
      let inner ← alongHeader change path []
      some (setEntry members key (.table .inner inner))
    | some (.table origin inner) => do
      let inner ← alongHeader change path inner
      some (setEntry members key (.table origin inner))
    | some (.tables items) =>
      match items.getLast? with
      | none => none
      | some last => do
        let last ← alongHeader change path last
        some (setEntry members key (.tables (items.dropLast ++ [last])))
    | some (.leaf _) => none

/-- The members with a table begun by its header. -/
def beginTable (key : String) (members : Members) : Option Members :=
  match entry? members key with
  | none => some (setEntry members key (.table .header []))
  | some (.table .inner inner) => some (setEntry members key (.table .header inner))
  | some _ => none

/-- The members with one more table begun in an array of tables. -/
def beginItem (key : String) (members : Members) : Option Members :=
  match entry? members key with
  | none => some (setEntry members key (.tables [[]]))
  | some (.tables items) => some (setEntry members key (.tables (items ++ [[]])))
  | some _ => none

/-- The members with a value set under a dotted key. The tables on the way must not have a header of
their own, and the last one must have been made by a dotted key. -/
def setDotted (value : Setting) : List String → Members → Option Members
  | [], _ => none
  | [key], members =>
    match entry? members key with
    | none => some (setEntry members key (.leaf value))
    | some _ => none
  | key :: next :: path, members =>
    match entry? members key with
    | none => do
      let inner ← setDotted value (next :: path) []
      some (setEntry members key (.table .dotted inner))
    | some (.table .inner inner) =>
      if path = [] then none
      else do
        let inner ← setDotted value (next :: path) inner
        some (setEntry members key (.table .inner inner))
    | some (.table .dotted inner) => do
      let inner ← setDotted value (next :: path) inner
      some (setEntry members key (.table .dotted inner))
    | some _ => none

/-- The text without the spaces and tabs it starts with. -/
def skipSpaces (text : List Char) : List Char := text.dropWhile fun c => c = ' ' || c = '\t'

def isCommentChar (c : Char) : Bool := c = '\t' || (0x20 ≤ c.toNat && c.toNat ≠ 0x7F)

/-- The text after a line break, if it starts with one. -/
def lineBreak? : List Char → Option (List Char)
  | '\n' :: rest => some rest
  | '\r' :: '\n' :: rest => some rest
  | _ => none

def skipComment : List Char → List Char
  | '#' :: rest => rest.dropWhile isCommentChar
  | text => text

/-- The text after the end of a line: blanks, perhaps a comment, and a line break or the end. -/
def endOfLine? (text : List Char) : Option (List Char) :=
  match skipComment (skipSpaces text) with
  | [] => some []
  | rest => lineBreak? rest

/-- The text without the blanks, line breaks and comments it starts with. -/
def skipLines : Nat → List Char → List Char
  | 0, text => text
  | fuel + 1, text =>
    let rest := skipComment (skipSpaces text)
    match lineBreak? rest with
    | some rest => skipLines fuel rest
    | none => rest

def isBareChar (c : Char) : Bool := c.isAlphanum || c = '_' || c = '-'

def hexNat? (digits : List Char) : Option Nat :=
  if digits.all fun c => c.isDigit || ('a' ≤ c && c ≤ 'f') || ('A' ≤ c && c ≤ 'F') then
    some (digits.foldl (fun n c =>
      n * 16 + (if c.isDigit then c.toNat - '0'.toNat
        else if 'a' ≤ c then c.toNat - 'a'.toNat + 10 else c.toNat - 'A'.toNat + 10)) 0)
  else none

/-- The character of a number in base sixteen with `size` digits. -/
def escapedPoint? (size : Nat) (text : List Char) : Option (Char × List Char) := do
  let digits := text.take size
  if digits.length ≠ size then none
  else
    let n ← hexNat? digits
    if n < 0xD800 ∨ (0xE000 ≤ n ∧ n < 0x110000) then some (Char.ofNat n, text.drop size) else none

def escape? : List Char → Option (Char × List Char)
  | 'b' :: rest => some ('\x08', rest)
  | 't' :: rest => some ('\t', rest)
  | 'n' :: rest => some ('\n', rest)
  | 'f' :: rest => some ('\x0c', rest)
  | 'r' :: rest => some ('\r', rest)
  | '"' :: rest => some ('"', rest)
  | '\\' :: rest => some ('\\', rest)
  | 'u' :: rest => escapedPoint? 4 rest
  | 'U' :: rest => escapedPoint? 8 rest
  | _ => none

def basic? : Nat → List Char → Option (List Char × List Char)
  | 0, _ | _, [] => none
  | _, '"' :: rest => some ([], rest)
  | fuel + 1, '\\' :: rest => do
    let (c, rest) ← escape? rest
    let (more, rest) ← basic? fuel rest
    some (c :: more, rest)
  | fuel + 1, c :: rest => do
    if isCommentChar c then
      let (more, rest) ← basic? fuel rest
      some (c :: more, rest)
    else none

def literal? (text : List Char) : Option (List Char × List Char) :=
  let content := text.takeWhile fun c => isCommentChar c && c ≠ '\''
  match text.dropWhile fun c => isCommentChar c && c ≠ '\'' with
  | '\'' :: rest => some (content, rest)
  | _ => none

/-- The text without the blanks and line breaks it starts with, if there is a line break before
anything else. -/
def continuation? (text : List Char) : Option (List Char) := do
  let rest ← lineBreak? (skipSpaces text)
  some (skipBlankLines rest.length rest)
where
  skipBlankLines : Nat → List Char → List Char
    | 0, text => text
    | fuel + 1, text =>
      let rest := skipSpaces text
      match lineBreak? rest with
      | some rest => skipBlankLines fuel rest
      | none => rest

/-- Reads the rest of a string over several lines. Up to two quotes may stand before the three that
end it. -/
def multiline? (quote : Char) (escapes : Bool) : Nat → List Char → Option (List Char × List Char)
  | 0, _ | _, [] => none
  | fuel + 1, c :: rest =>
    if c = quote then
      let quotes := (c :: rest).takeWhile (· = quote)
      if 3 ≤ quotes.length then
        if quotes.length ≤ 5 then
          some (List.replicate (quotes.length - 3) quote, (c :: rest).drop quotes.length)
        else none
      else do
        let (more, rest) ← multiline? quote escapes fuel rest
        some (c :: more, rest)
    else if c = '\\' ∧ escapes then
      match continuation? rest with
      | some rest => multiline? quote escapes fuel rest
      | none => do
        let (c, rest) ← escape? rest
        let (more, rest) ← multiline? quote escapes fuel rest
        some (c :: more, rest)
    else match lineBreak? (c :: rest) with
      | some rest => do
        let (more, rest) ← multiline? quote escapes fuel rest
        some ('\n' :: more, rest)
      | none =>
        if isCommentChar c then do
          let (more, rest) ← multiline? quote escapes fuel rest
          some (c :: more, rest)
        else none

def string? (text : List Char) : Option (List Char × List Char) :=
  match text with
  | '"' :: '"' :: '"' :: rest => multiline? '"' true rest.length ((lineBreak? rest).getD rest)
  | '\'' :: '\'' :: '\'' :: rest => multiline? '\'' false rest.length ((lineBreak? rest).getD rest)
  | '"' :: rest => basic? rest.length rest
  | '\'' :: rest => literal? rest
  | _ => none

def keyPart? (text : List Char) : Option (String × List Char) :=
  match text with
  | '"' :: rest => (basic? rest.length rest).map fun (s, rest) => (String.ofList s, rest)
  | '\'' :: rest => (literal? rest).map fun (s, rest) => (String.ofList s, rest)
  | text =>
    let name := text.takeWhile isBareChar
    if name = [] then none else some (String.ofList name, text.dropWhile isBareChar)

/-- Reads a key: parts with dots between them, and blanks around them. -/
def key? : Nat → List Char → Option (List String × List Char)
  | 0, _ => none
  | fuel + 1, text => do
    let (part, rest) ← keyPart? (skipSpaces text)
    match skipSpaces rest with
    | '.' :: rest => do
      let (parts, rest) ← key? fuel rest
      some (part :: parts, rest)
    | rest => some ([part], rest)

/-- The digits of a number without the underscores between them. No underscore may stand at either
end or next to another. -/
def digits? (isDigit : Char → Bool) (text : List Char) : Option (List Char) :=
  if text = [] ∨ text.head? = some '_' ∨ text.getLast? = some '_' then none
  else if (text.zip (text.drop 1)).any fun (a, b) => a = '_' && b = '_' then none
  else
    let digits := text.filter (· ≠ '_')
    if digits.all isDigit then some digits else none

/-- The integer of digits in a base other than ten. -/
def based? (base : Nat) (isDigit : Char → Bool) (text : List Char) : Option Setting := do
  let digits ← digits? isDigit text
  let n ← hexNat? digits
  let value := if base = 16 then n
    else digits.foldl (fun n c => n * base + (c.toNat - '0'.toNat)) 0
  if FitsInt64 value then some (.integer (Int64.ofNat value)) else none

/-- Whether the digits are a whole number as it is written: no zero stands before other digits. -/
def isWhole (digits : List Char) : Bool := digits.length = 1 || digits.head? ≠ some '0'

/-- The double of a number with a fraction or an exponent, given the text after its sign. -/
def float? (negative : Bool) (text : List Char) : Option Setting := do
  let isMark := fun c => c = '.' || c = 'e' || c = 'E'
  let whole ← digits? Char.isDigit (text.takeWhile (¬ isMark ·))
  if ¬ isWhole whole then none
  else
    let rest := text.dropWhile (¬ isMark ·)
    let (fraction, rest) ← match rest with
      | '.' :: rest => do
        let fraction ← digits? Char.isDigit (rest.takeWhile (¬ isMark ·))
        some (fraction, rest.dropWhile (¬ isMark ·))
      | rest => some ([], rest)
    let exponent ← match rest with
      | [] => some []
      | '.' :: _ => none
      | _ :: '-' :: rest => (digits? Char.isDigit rest).map ('-' :: ·)
      | _ :: '+' :: rest | _ :: rest => digits? Char.isDigit rest
    let point := if fraction = [] then [] else '.' :: fraction
    let mark := if exponent = [] then [] else 'e' :: exponent
    match (Decimal.unsigned? negative (whole ++ point ++ mark)).map Decimal.toDouble with
    | some (.finite x) => some (.float (.finite x))
    | _ => none

def number? (word : List Char) : Option Setting :=
  match word with
  | '0' :: 'x' :: rest => based? 16 (fun c => (hexNat? [c]).isSome) rest
  | '0' :: 'o' :: rest => based? 8 (fun c => '0' ≤ c && c ≤ '7') rest
  | '0' :: 'b' :: rest => based? 2 (fun c => c = '0' || c = '1') rest
  | word =>
    let (negative, rest) := Decimal.splitSign word
    if rest = "inf".toList then some (.float (.infinity negative))
    else if rest = "nan".toList then some (.float .nan)
    else match digits? Char.isDigit rest with
      | some digits =>
        let n : Int := Nat.ofDigitChars 10 digits 0
        let n := if negative then -n else n
        if isWhole digits ∧ FitsInt64 n then some (.integer (Int64.ofInt n)) else none
      | none => float? negative rest

def twoDigits? (most : Nat) (text : List Char) : Option (Nat × List Char) :=
  match text with
  | a :: b :: rest =>
    let n := Nat.ofDigitChars 10 [a, b] 0
    if a.isDigit ∧ b.isDigit ∧ n ≤ most then some (n, rest) else none
  | _ => none

def daysIn (year month : Nat) : Nat :=
  if month = 2 then
    if year % 4 = 0 ∧ (year % 100 ≠ 0 ∨ year % 400 = 0) then 29 else 28
  else if month ∈ [4, 6, 9, 11] then 30 else 31

/-- The characters of a text that were read, given what is left of it. -/
def consumed (text rest : List Char) : List Char := text.take (text.length - rest.length)

def date? (text : List Char) : Option (List Char × List Char) := do
  match text with
  | a :: b :: c :: d :: '-' :: rest =>
    if ¬ [a, b, c, d].all Char.isDigit then none
    else
      let (month, rest) ← twoDigits? 12 rest
      match rest with
      | '-' :: rest =>
        let (day, rest) ← twoDigits? 31 rest
        let year := Nat.ofDigitChars 10 [a, b, c, d] 0
        if 1 ≤ month ∧ 1 ≤ day ∧ day ≤ daysIn year month then some (consumed text rest, rest)
        else none
      | _ => none
  | _ => none

/-- The digits of a second after the point as they are written: nine at most, without zeros at the
end. -/
def secondFraction (digits : List Char) : List Char :=
  match ((digits.take 9).reverse.dropWhile (· = '0')).reverse with
  | [] => []
  | digits => '.' :: digits

def time? (text : List Char) : Option (List Char × List Char) := do
  let (_, rest) ← twoDigits? 23 text
  match rest with
  | ':' :: rest =>
    let (_, rest) ← twoDigits? 59 rest
    match rest with
    | ':' :: rest =>
      let (_, rest) ← twoDigits? 60 rest
      let whole := consumed text rest
      match rest with
      | '.' :: rest =>
        let digits := rest.takeWhile Char.isDigit
        if digits = [] then none
        else some (whole ++ secondFraction digits, rest.dropWhile Char.isDigit)
      | rest => some (whole, rest)
    | _ => none
  | _ => none

/-- Reads the offset of a time from the universal one, if there is any. -/
def offset? (text : List Char) : Option (List Char × List Char) :=
  match text with
  | 'Z' :: rest | 'z' :: rest => some (['Z'], rest)
  | sign :: rest =>
    if sign = '+' ∨ sign = '-' then do
      let (_, after) ← twoDigits? 23 rest
      match after with
      | ':' :: after =>
        let (_, after) ← twoDigits? 59 after
        some (sign :: consumed rest after, after)
      | _ => none
    else some ([], text)
  | [] => some ([], [])

/-- Reads a date, a time, or both. -/
def dateTime? (text : List Char) : Option (Setting × List Char) :=
  match date? text with
  | some (date, rest) =>
    let separated := match rest with
      | 'T' :: rest | 't' :: rest => some rest
      | ' ' :: c :: rest => if c.isDigit then some (c :: rest) else none
      | _ => none
    match separated with
    | none => some (.text (String.ofList date), rest)
    | some rest => do
      let (time, rest) ← time? rest
      let (offset, rest) ← offset? rest
      some (.text (String.ofList (date ++ 'T' :: (time ++ offset))), rest)
  | none => (time? text).map fun (time, rest) => (.text (String.ofList time), rest)

def isWordChar (c : Char) : Bool := c.isAlphanum || c = '_' || c = '+' || c = '-' || c = '.'

/-- Reads a value that is neither a string nor an array nor an inline table. -/
def plain? (text : List Char) : Option (Setting × List Char) :=
  match dateTime? text with
  | some read => some read
  | none =>
    let word := text.takeWhile isWordChar
    let rest := text.dropWhile isWordChar
    if word = "true".toList then some (.bool true, rest)
    else if word = "false".toList then some (.bool false, rest)
    else (number? word).map (·, rest)

mutual

/-- Reads a value. The fuel bounds the number of steps. -/
def value? : Nat → List Char → Option (Setting × List Char)
  | 0, _ => none
  | fuel + 1, text =>
    match text with
    | '[' :: rest => do
      let (items, rest) ← items? fuel rest
      some (.array items, rest)
    | '{' :: rest =>
      match skipSpaces rest with
      | '}' :: rest => some (.table [], rest)
      | rest => do
        let (members, rest) ← pairs? fuel [] rest
        some (.table (membersToSettings members), rest)
    | '"' :: _ | '\'' :: _ => (string? text).map fun (s, rest) => (.text (String.ofList s), rest)
    | text => plain? text

def items? : Nat → List Char → Option (List Setting × List Char)
  | 0, _ => none
  | fuel + 1, text =>
    match skipLines text.length text with
    | ']' :: rest => some ([], rest)
    | text => do
      let (item, rest) ← value? fuel text
      match skipLines rest.length rest with
      | ',' :: rest => do
        let (items, rest) ← items? fuel rest
        some (item :: items, rest)
      | ']' :: rest => some ([item], rest)
      | _ => none

/-- Reads the members of an inline table after its brace or after a comma. -/
def pairs? : Nat → Members → List Char → Option (Members × List Char)
  | 0, _, _ => none
  | fuel + 1, members, text => do
    let (key, rest) ← key? text.length text
    match rest with
    | '=' :: rest => do
      let (value, rest) ← value? fuel (skipSpaces rest)
      let members ← setDotted value key members
      match skipSpaces rest with
      | ',' :: rest => pairs? fuel members rest
      | '}' :: rest => some (members, rest)
      | _ => none
    | _ => none

end

/-- Reads one line after its blanks: a header, or a key with its value. Gives the path of the table
that the lines after it belong to. -/
def line? (path : List String) (root : Members) (text : List Char) :
    Option (List String × Members × List Char) :=
  match text with
  | '[' :: '[' :: rest => do
    let (key, rest) ← key? rest.length rest
    match rest with
    | ']' :: ']' :: rest => do
      let last ← key.getLast?
      let root ← alongHeader (beginItem last) key.dropLast root
      some (key, root, ← endOfLine? rest)
    | _ => none
  | '[' :: rest => do
    let (key, rest) ← key? rest.length rest
    match rest with
    | ']' :: rest => do
      let last ← key.getLast?
      let root ← alongHeader (beginTable last) key.dropLast root
      some (key, root, ← endOfLine? rest)
    | _ => none
  | text => do
    let (key, rest) ← key? text.length text
    match rest with
    | '=' :: rest => do
      let rest := skipSpaces rest
      let (value, rest) ← value? (2 * rest.length + 2) rest
      let root ← alongHeader (setDotted value key) path root
      some (path, root, ← endOfLine? rest)
    | _ => none

def lines? : Nat → List String → Members → List Char → Option Members
  | 0, _, _, _ => none
  | fuel + 1, path, root, text =>
    match skipLines text.length text with
    | [] => some root
    | text => do
      let (path, root, rest) ← line? path root text
      lines? fuel path root rest

def read? (text : String) : Option (List (String × Setting)) :=
  (lines? (text.length + 1) [] [] text.toList).map membersToSettings

end RecordStore.Toml
