import RecordStore.Settings.Value
import RecordStore.Text.Joined

/-!
# Settings in YAML

Reads a YAML document whose outermost value is a mapping: mappings and sequences by indentation or
in brackets, plain and quoted scalars over one line or several, and block scalars. Anchors, tags and
several documents in one file are refused.
-/

namespace RecordStore.Yaml

abbrev Line := List Char

def indentOf (line : Line) : Nat := (line.takeWhile (· = ' ')).length

def content (line : Line) : List Char := line.dropWhile (· = ' ')

def isSpace (c : Char) : Bool := c = ' ' || c = '\t'

def trimEnd (text : List Char) : List Char := (text.reverse.dropWhile isSpace).reverse

/-- Whether a text is blank or a comment. -/
def isVoid (text : List Char) : Bool :=
  match text.dropWhile isSpace with
  | [] => true
  | c :: _ => c = '#'

/-- The lines without the blank lines and comments they start with. -/
def skipVoid (lines : List Line) : List Line := lines.dropWhile isVoid

/-- A text without a comment at its end: a comment starts with a number sign after a space. -/
def dropComment (before : Char) : List Char → List Char
  | [] => []
  | c :: rest => if c = '#' ∧ isSpace before then [] else c :: dropComment c rest

def basedInteger? (base : Nat) (text : List Char) : Option Setting :=
  let (negative, digits) := Decimal.splitSign text
  let value? := fun (c : Char) =>
    let n := if c.isDigit then c.toNat - '0'.toNat
      else if 'a' ≤ c ∧ c ≤ 'f' then c.toNat - 'a'.toNat + 10
      else if 'A' ≤ c ∧ c ≤ 'F' then c.toNat - 'A'.toNat + 10
      else base
    if n < base then some n else none
  match digits.mapM value? with
  | none | some [] => none
  | some values =>
    let size := values.foldl (fun n d => n * base + d) 0
    let n : Int := if negative then -(size : Int) else size
    if FitsInt64 n then some (.integer (Int64.ofInt n)) else none

def integer? (text : List Char) : Option Setting :=
  match text with
  | '0' :: 'x' :: rest => basedInteger? 16 rest
  | '0' :: 'o' :: rest => basedInteger? 8 rest
  | '+' :: rest => basedInteger? 10 rest
  | rest => basedInteger? 10 rest

/-- What a plain scalar stands for. The words for infinities are refused. -/
def plainValue? (text : List Char) : Option Setting :=
  let word := String.ofList text
  if word ∈ ["", "~", "null"] then some .nil
  else if word = "true" then some (.bool true)
  else if word = "false" then some (.bool false)
  else if word ∈ [".inf", ".Inf", ".INF", "+.inf", "+.Inf", "+.INF", "-.inf", "-.Inf", "-.INF",
      ".nan", ".NAN"] then none
  else if word = "NaN" then some (.float .nan)
  else match integer? text, Decimal.ofText? text with
    | some n, _ => some n
    | none, some d => some (.float d.toDouble)
    | none, none => some (.text word)

/-- What a value stands for as a key: texts and integers can be keys. -/
def keyText? : Setting → Option String
  | .text s => some s
  | .integer n => some (toString n.toInt)
  | _ => none

/-- The members with one more; no key may come twice. -/
def addMember (members : List (String × Setting)) (key : String) (value : Setting) :
    Option (List (String × Setting)) :=
  if members.any (·.1 = key) then none else some (members ++ [(key, value)])

def hexChar? (size : Nat) (text : List Char) : Option (Char × List Char) := do
  let digits := text.take size
  if digits.length ≠ size then none
  else
    match basedInteger? 16 digits with
    | some (.integer n) =>
      let n := n.toInt.toNat
      if n < 0xD800 ∨ (0xE000 ≤ n ∧ n < 0x110000) then some (Char.ofNat n, text.drop size) else none
    | _ => none

def escape? : List Char → Option (Char × List Char)
  | [] => none
  | c :: rest =>
    if c = 'x' then hexChar? 2 rest
    else if c = 'u' then hexChar? 4 rest
    else if c = 'U' then hexChar? 8 rest
    else
      let known := [('0', '\x00'), ('a', '\x07'), ('b', '\x08'), ('t', '\t'), ('\t', '\t'),
        ('n', '\n'), ('v', '\x0b'), ('f', '\x0c'), ('r', '\r'), ('e', '\x1b'), (' ', ' '),
        ('"', '"'), ('/', '/'), ('\\', '\\'), ('N', '\u0085'), ('_', '\u00a0'), ('L', '\u2028'),
        ('P', '\u2029')]
      (known.find? (·.1 = c)).map fun (_, value) => (value, rest)

/-- What a line break in a scalar stands for, given the text after it: a space, or one break fewer
than there are. Gives the text that goes on after the blanks. -/
def foldBreaks : Nat → Nat → List Char → List Char × List Char
  | 0, _, text => ([], text)
  | fuel + 1, breaks, text =>
    let rest := text.dropWhile isSpace
    match rest with
    | '\n' :: rest => foldBreaks fuel (breaks + 1) rest
    | rest => (if breaks = 0 then [' '] else List.replicate breaks '\n', rest)

/-- Reads the rest of a scalar in quotes. `blanks` are the spaces just read, which vanish before a
line break. -/
def quoted? (quote : Char) : Nat → List Char → List Char → Option (List Char × List Char)
  | 0, _, _ | _, _, [] => none
  | fuel + 1, blanks, c :: rest =>
    if c = quote then
      match rest with
      | '\'' :: rest =>
        if quote = '\'' then do
          let (more, rest) ← quoted? quote fuel [] rest
          some (blanks.reverse ++ '\'' :: more, rest)
        else some (blanks.reverse, '\'' :: rest)
      | rest => some (blanks.reverse, rest)
    else if c = '\n' then do
      let (folded, rest) := foldBreaks rest.length 0 rest
      let (more, rest) ← quoted? quote fuel [] rest
      some (folded ++ more, rest)
    else if isSpace c then quoted? quote fuel (c :: blanks) rest
    else if c = '\\' ∧ quote = '"' then
      match rest with
      | '\n' :: rest => do
        let (more, rest) ← quoted? quote fuel [] (rest.dropWhile isSpace)
        some (blanks.reverse ++ more, rest)
      | rest => do
        let (c, rest) ← escape? rest
        let (more, rest) ← quoted? quote fuel [] rest
        some (blanks.reverse ++ c :: more, rest)
    else do
      let (more, rest) ← quoted? quote fuel [] rest
      some (blanks.reverse ++ c :: more, rest)

/-- The text without the blanks, line breaks and comments it starts with. `before` is the character
before it. -/
def skipFlow : Nat → Char → List Char → List Char
  | 0, _, text => text
  | _, _, [] => []
  | fuel + 1, before, c :: rest =>
    if isSpace c ∨ c = '\n' then skipFlow fuel c rest
    else if c = '#' ∧ (isSpace before ∨ before = '\n') then
      skipFlow fuel '\n' (rest.dropWhile (· ≠ '\n'))
    else c :: rest

def isFlowMark (c : Char) : Bool := c ∈ [',', '[', ']', '{', '}']

def flowPlain (before : Char) : List Char → List Char × List Char
  | [] => ([], [])
  | c :: rest =>
    let ends : Bool := match rest with
      | [] => true
      | next :: _ => isSpace next || next = '\n' || isFlowMark next
    if isFlowMark c ∨ c = '\n' ∨ (c = ':' ∧ ends) ∨ (c = '#' ∧ isSpace before) then ([], c :: rest)
    else
      let (more, rest) := flowPlain c rest
      (c :: more, rest)

/-- Whether a plain scalar may start with a text. -/
def startsPlain : List Char → Bool
  | [] => false
  | c :: rest =>
    if c ∈ ['-', '?', ':'] then
      match rest with
      | [] => false
      | next :: _ => !(isSpace next || next = '\n')
    else c ∉ [',', '[', ']', '{', '}', '#', '&', '*', '!', '|', '>', '\'', '"', '%', '@', '\x60']

def flowScalar? (text : List Char) : Option (Setting × List Char) :=
  match text with
  | '"' :: rest =>
    (quoted? '"' (rest.length + 1) [] rest).map fun (s, rest) => (.text (String.ofList s), rest)
  | '\'' :: rest =>
    (quoted? '\'' (rest.length + 1) [] rest).map fun (s, rest) => (.text (String.ofList s), rest)
  | text =>
    if startsPlain text then do
      let (word, rest) := flowPlain '\n' text
      some (← plainValue? (trimEnd word), rest)
    else none

mutual

def flow? : Nat → List Char → Option (Setting × List Char)
  | 0, _ => none
  | fuel + 1, text =>
    match text with
    | '[' :: rest => do
      let (items, rest) ← flowItems? fuel rest
      some (.array items, rest)
    | '{' :: rest => do
      let (members, rest) ← flowMembers? fuel [] rest
      some (.table members, rest)
    | text => flowScalar? text

/-- Reads the items of a sequence in brackets. An item with a colon is a mapping of its own. -/
def flowItems? : Nat → List Char → Option (List Setting × List Char)
  | 0, _ => none
  | fuel + 1, text =>
    match skipFlow text.length '\n' text with
    | ']' :: rest => some ([], rest)
    | text => do
      let (item, rest) ← flow? fuel text
      let (item, rest) ← match skipFlow rest.length 'x' rest with
        | ':' :: rest => do
          let (value, rest) ← flowValue? fuel rest
          some (Setting.table [(← keyText? item, value)], rest)
        | rest => some (item, rest)
      match skipFlow rest.length 'x' rest with
      | ',' :: rest => do
        let (items, rest) ← flowItems? fuel rest
        some (item :: items, rest)
      | ']' :: rest => some ([item], rest)
      | _ => none

/-- Reads the value after a colon inside brackets. -/
def flowValue? : Nat → List Char → Option (Setting × List Char)
  | 0, _ => none
  | fuel + 1, text =>
    match skipFlow text.length '\n' text with
    | [] => none
    | c :: rest =>
      if c ∈ [',', ']', '}'] then some (.nil, c :: rest) else flow? fuel (c :: rest)

/-- Reads the members of a mapping in braces. -/
def flowMembers? : Nat → List (String × Setting) → List Char →
    Option (List (String × Setting) × List Char)
  | 0, _, _ => none
  | fuel + 1, members, text =>
    match skipFlow text.length '\n' text with
    | '}' :: rest => some (members, rest)
    | text => do
      let (key, rest) ← flowScalar? text
      let key ← keyText? key
      let (value, rest) ← match skipFlow rest.length 'x' rest with
        | ':' :: rest => flowValue? fuel rest
        | rest => some (.nil, rest)
      let members ← addMember members key value
      match skipFlow rest.length 'x' rest with
      | ',' :: rest => flowMembers? fuel members rest
      | '}' :: rest => some (members, rest)
      | _ => none

end

/-- The key at the start of a line and the text after its colon. -/
def splitPlainKey (before : Char) : List Char → Option (List Char × List Char)
  | [] => none
  | c :: rest =>
    let ends : Bool := match rest with
      | [] => true
      | next :: _ => isSpace next
    if c = ':' ∧ ends then some ([], rest)
    else if c = '#' ∧ isSpace before then none
    else (splitPlainKey c rest).map fun (key, rest) => (c :: key, rest)

/-- The key at the start of a line and the text after its colon, if the line starts with a key. -/
def splitKey? (text : List Char) : Option (Setting × List Char) :=
  match text with
  | '"' :: rest => afterQuoted '"' rest
  | '\'' :: rest => afterQuoted '\'' rest
  | text =>
    if startsPlain text then do
      let (key, rest) ← splitPlainKey '\n' text
      some (← plainValue? (trimEnd key), rest)
    else none
where
  afterQuoted (quote : Char) (text : List Char) : Option (Setting × List Char) := do
    let (key, rest) ← quoted? quote (text.length + 1) [] text
    match rest.dropWhile isSpace with
    | [':'] => some (.text (String.ofList key), [])
    | ':' :: c :: rest => if isSpace c then some (.text (String.ofList key), c :: rest) else none
    | _ => none

def isItem (text : List Char) : Bool :=
  match text with
  | ['-'] => true
  | '-' :: c :: _ => isSpace c
  | _ => false

/-- How the line breaks at the end of a block scalar are kept. -/
inductive Chomp
  | clip
  | strip
  | keep
deriving DecidableEq

/-- The header of a block scalar after its mark: how it ends, and its indentation if given. -/
def blockHeader? : List Char → Option (Chomp × Option Nat)
  | [] => some (.clip, none)
  | c :: rest =>
    if isSpace c then if isVoid rest then some (.clip, none) else none
    else do
      let (chomp, indent) ← blockHeader? rest
      if c = '-' ∧ chomp = .clip then some (.strip, indent)
      else if c = '+' ∧ chomp = .clip then some (.keep, indent)
      else if '1' ≤ c ∧ c ≤ '9' ∧ indent = none then some (chomp, some (c.toNat - '0'.toNat))
      else none

/-- Folds the lines of a block scalar: a break between two lines of text becomes a space, and breaks
around blank or indented lines are kept. -/
def foldLines : List Line → List Char
  | [] => []
  | [line] => line
  | line :: next :: rest =>
    let isText := fun (l : Line) => l ≠ [] && !(l.head?.any isSpace)
    if isText line ∧ isText next then line ++ ' ' :: foldLines (next :: rest)
    else if isText line ∧ next = [] then
      let blanks := (next :: rest).takeWhile (· = [])
      match (next :: rest).dropWhile (· = []) with
      | after :: _ =>
        if isText after then line ++ foldLines (next :: rest)
        else line ++ '\n' :: foldLines (next :: rest)
      | [] => line ++ List.replicate blanks.length '\n'
    else line ++ '\n' :: foldLines (next :: rest)

def block? (folded : Bool) (parent : Nat) (header : List Char) (lines : List Line) :
    Option (Setting × List Line) := do
  let (chomp, given) ← blockHeader? header
  let isBlank := fun (l : Line) => content l = []
  let first := (lines.find? fun l => ¬ isBlank l).map indentOf
  let indent := match given with
    | some n => parent + n
    | none => first.getD 0
  if indent ≤ parent ∧ given = none ∧ first ≠ none ∧ parent < first.getD 0 then none
  else
    let inside := fun (l : Line) => isBlank l || (parent < indent && indent ≤ indentOf l)
    let body := (lines.takeWhile inside).map (·.drop indent)
    let text := (body.reverse.dropWhile (· = [])).reverse
    let blanks := body.length - text.length
    let joined := if folded then foldLines text else joinWith ['\n'] text
    let ending := match chomp with
      | .strip => []
      | .clip => if text = [] then [] else ['\n']
      | .keep => if text = [] then List.replicate blanks '\n' else List.replicate (blanks + 1) '\n'
    some (.text (String.ofList (joined ++ ending)), lines.dropWhile inside)

/-- The lines that go on with a plain scalar deeper than `parent`, as its text, and the lines after
them. -/
def plainLines (parent : Option Nat) : Nat → List Line → Option (List Char × List Line)
  | _, [] => some ([], [])
  | breaks, line :: rest =>
    let text := content line
    if text = [] then
      (plainLines parent (breaks + 1) rest).map fun (more, after) =>
        if more = [] then ([], line :: rest) else (more, after)
    else if parent.any (indentOf line ≤ ·) ∨ text.head? = some '#' then some ([], line :: rest)
    else if (splitPlainKey '\n' text).isSome then none
    else do
      let shown := trimEnd (dropComment '\n' text)
      let fold := if breaks = 0 then [' '] else List.replicate breaks '\n'
      if shown.length < (trimEnd text).length then some (fold ++ shown, rest)
      else
        let (more, after) ← plainLines parent 0 rest
        some (fold ++ shown ++ more, after)

/-- Reads a value that starts in the rest of a line and is no mapping or sequence by indentation.
Lines that belong to it are deeper than `parent`. -/
def inline? (parent : Option Nat) (text : List Char) (lines : List Line) :
    Option (Setting × List Line) :=
  match text with
  | [] => none
  | '|' :: header => block? false (parent.getD 0) header lines
  | '>' :: header => block? true (parent.getD 0) header lines
  | c :: _ =>
    if c ∈ ['"', '\'', '[', '{'] then do
      let all := joinWith ['\n'] (text :: lines)
      let (value, rest) ← flow? (2 * all.length + 2) all
      match splitAtEvery '\n' rest with
      | [] => some (value, [])
      | line :: after => if isVoid line then some (value, if rest = [] then [] else after) else none
    else if startsPlain text then do
      let shown := trimEnd (dropComment '\n' text)
      if (splitPlainKey '\n' text).isSome then none
      else if shown.length < (trimEnd text).length then some (← plainValue? shown, lines)
      else
        let (more, after) ← plainLines parent 0 lines
        some (← plainValue? (shown ++ more), after)
    else none

mutual

/-- Reads the mapping, sequence or scalar that starts with the first line, which belongs to
something as deep as `parent`. -/
def node? : Nat → Option Nat → List Line → Option (Setting × List Line)
  | 0, _, _ => none
  | fuel + 1, parent, lines =>
    match skipVoid lines with
    | [] => some (.nil, [])
    | line :: rest =>
      let text := content line
      if isItem text then do
        let (items, rest) ← items? fuel (indentOf line) (line :: rest)
        some (.array items, rest)
      else if (splitKey? text).isSome then do
        let (members, rest) ← members? fuel (indentOf line) [] (line :: rest)
        some (.table members, rest)
      else inline? parent text rest

def items? : Nat → Nat → List Line → Option (List Setting × List Line)
  | 0, _, _ => none
  | fuel + 1, depth, lines =>
    match skipVoid lines with
    | [] => some ([], [])
    | line :: rest =>
      let text := content line
      if indentOf line = depth ∧ isItem text then do
        let after := text.drop 1
        let (item, rest) ←
          if isVoid after then below? fuel depth false rest
          else node? fuel (some depth) ((List.replicate (depth + 1) ' ' ++ after) :: rest)
        let (items, rest) ← items? fuel depth rest
        some (item :: items, rest)
      else if depth < indentOf line then none
      else some ([], line :: rest)

/-- Reads the members of a mapping whose keys stand at the given depth. -/
def members? : Nat → Nat → List (String × Setting) → List Line →
    Option (List (String × Setting) × List Line)
  | 0, _, _, _ => none
  | fuel + 1, depth, members, lines =>
    match skipVoid lines with
    | [] => some (members, [])
    | line :: rest =>
      if indentOf line = depth ∧ ¬ isItem (content line) then do
        let (key, after) ← splitKey? (content line)
        let key ← keyText? key
        let after := after.dropWhile isSpace
        let (value, rest) ←
          if isVoid after then below? fuel depth true rest else inline? (some depth) after rest
        let members ← addMember members key value
        members? fuel depth members rest
      else if depth < indentOf line then none
      else some (members, line :: rest)

/-- Reads the value of a key or a dash whose line has nothing more: deeper lines, or after a key a
sequence at the same depth. -/
def below? : Nat → Nat → Bool → List Line → Option (Setting × List Line)
  | 0, _, _, _ => none
  | fuel + 1, depth, afterKey, lines =>
    match skipVoid lines with
    | [] => some (.nil, [])
    | line :: rest =>
      if depth < indentOf line ∨ (afterKey ∧ depth = indentOf line ∧ isItem (content line)) then
        node? fuel (some depth) (line :: rest)
      else some (.nil, line :: rest)

end

/-- Whether a line is a mark that starts or ends a document. -/
def isMark (mark : String) (line : Line) : Bool :=
  mark.toList.isPrefixOf line && isVoid (line.drop 3) &&
    (line.drop 3).head?.all isSpace

/-- The lines of the only document of a file. -/
def document? (lines : List Line) : Option (List Line) :=
  let start := skipVoid lines
  let body := match start with
    | line :: rest => if isMark "---" line then rest else start
    | [] => []
  let inside := body.takeWhile fun line => ¬ (isMark "..." line ∨ "---".toList.isPrefixOf line)
  let after := (body.drop inside.length).dropWhile fun line => isVoid line || isMark "..." line
  if after = [] then some inside else none

/-- The members of a document. A file without a document has none. -/
def read? (text : String) : Option (List (String × Setting)) := do
  let lines := (splitAtEvery '\n' text.toList).map fun line =>
    if line.getLast? = some '\r' then line.dropLast else line
  let lines ← document? lines
  if (skipVoid lines).isEmpty then some []
  else
    match ← node? (2 * text.length + 2) none lines with
    | (.table members, rest) => if (skipVoid rest).isEmpty then some members else none
    | _ => none

end RecordStore.Yaml
