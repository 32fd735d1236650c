import RecordStore.Database.Table
import RecordStore.Text.Identifier

/-!
# Reading SQL text

How a database reads the text of a statement with its parameters: characters are grouped into
tokens, each placeholder takes the next parameter, and what stands after `WHERE` is a condition.
A disjunction consists of conjunctions and a conjunction of tests, so that `AND` binds more tightly
than `OR` and comparisons bind more tightly than both; parentheses hold a whole condition. Nothing
here depends on how statements are written.
-/

namespace RecordStore

/-- The words that a condition is built from or that end it. -/
inductive Keyword
  | WHERE
  | AND
  | OR
  | NOT
  | IS
  | NULL
  | IN
  | ORDER
  | LIMIT
deriving DecidableEq

def Keyword.spelling : Keyword → String
  | .WHERE => "WHERE"
  | .AND => "AND"
  | .OR => "OR"
  | .NOT => "NOT"
  | .IS => "IS"
  | .NULL => "NULL"
  | .IN => "IN"
  | .ORDER => "ORDER"
  | .LIMIT => "LIMIT"

/-- The characters that quoted text stands between. -/
inductive Quote
  | double
  | single
deriving DecidableEq

def Quote.char : Quote → Char
  | .double => '"'
  | .single => '\''

/-- A token of a statement whose parameters are bound. -/
inductive Token
  | keyword (k : Keyword)
  | word (chars : List Char)
  | name (s : String)
  | text (s : String)
  | sign (chars : List Char)
  | value (v : SqlValue)
deriving DecidableEq

namespace Token

/-- The token of a word. Keywords are known in either case. -/
def ofWord (chars : List Char) : Token :=
  match [Keyword.WHERE, .AND, .OR, .NOT, .IS, .NULL, .IN, .ORDER, .LIMIT].find?
      (·.spelling.toList = chars.map Char.toUpper) with
  | some k => .keyword k
  | none => .word chars

def ofQuoted : Quote → List Char → Token
  | .double, chars => .name (String.ofList chars)
  | .single, chars => .text (String.ofList chars)

end Token

/-- What the characters before a place may be the beginning of. -/
inductive Pending
  | nothing
  | word (chars : List Char)
  | sign (c : Char)
  | quoted (quote : Quote) (chars : List Char)
  /-- A quote character inside quotes: the end, unless another one follows. -/
  | closing (quote : Quote) (chars : List Char)

/-- The tokens read so far, the last one first, the parameters that are not bound yet, and the
token that is being read. -/
structure Scanner where
  tokens : List Token
  values : List SqlValue
  pending : Pending

namespace Scanner

def longSigns : List (Char × Char) := [('<', '='), ('<', '>'), ('>', '='), ('!', '='), ('=', '=')]

/-- Ends the token that is being read, if it can end. -/
def settle (s : Scanner) : Option Scanner :=
  match s.pending with
  | .nothing => some s
  | .word chars => some ⟨.ofWord chars :: s.tokens, s.values, .nothing⟩
  | .sign c => some ⟨.sign [c] :: s.tokens, s.values, .nothing⟩
  | .quoted _ _ => none
  | .closing quote chars => some ⟨.ofQuoted quote chars :: s.tokens, s.values, .nothing⟩

def start (s : Scanner) (c : Char) : Option Scanner :=
  if c = ' ' then some s
  else if c = '"' then some { s with pending := .quoted .double [] }
  else if c = '\'' then some { s with pending := .quoted .single [] }
  else if isIdentifierRest c then some { s with pending := .word [c] }
  else if c ∈ ['<', '>', '=', '!'] then some { s with pending := .sign c }
  else if c ∈ ['(', ')', ',', '*'] then some { s with tokens := .sign [c] :: s.tokens }
  else if c = '?' then
    match s.values with
    | value :: values => some ⟨.value value :: s.tokens, values, s.pending⟩
    | [] => none
  else none

def goesOn : Pending → Char → Bool
  | .nothing, _ => false
  | .word _, c => isIdentifierRest c
  | .sign d, c => longSigns.contains (d, c)
  | .quoted _ _, _ => true
  | .closing quote _, c => c = quote.char

/-- Reads one more character of the token that is being read. A zero character ends the text, which
is no statement if quotes are open there. -/
def extend (s : Scanner) (c : Char) : Option Scanner :=
  match s.pending with
  | .nothing => none
  | .word chars => some { s with pending := .word (chars ++ [c]) }
  | .sign d => some ⟨.sign [d, c] :: s.tokens, s.values, .nothing⟩
  | .quoted quote chars =>
    if c = '\x00' then none
    else if c = quote.char then some { s with pending := .closing quote chars }
    else some { s with pending := .quoted quote (chars ++ [c]) }
  | .closing quote chars => some { s with pending := .quoted quote (chars ++ [c]) }

def step (s : Scanner) (c : Char) : Option Scanner :=
  if goesOn s.pending c then s.extend c else s.settle.bind (·.start c)

def scan (s : Scanner) (chars : List Char) : Option Scanner := chars.foldlM step s

end Scanner

/-- The tokens of a text, its placeholders bound to the parameters from left to right. There have to
be as many parameters as placeholders. -/
def tokensOf (text : String) (params : List SqlValue) : Option (List Token) := do
  let s ← Scanner.scan ⟨[], params, .nothing⟩ text.toList
  let s ← s.settle
  if s.values = [] then some s.tokens.reverse else none

namespace Clause

def relation? : List Char → Option Relation
  | ['='] | ['=', '='] => some .equal
  | ['<', '>'] | ['!', '='] => some .notEqual
  | ['>'] => some .greater
  | ['>', '='] => some .atLeast
  | ['<'] => some .less
  | ['<', '='] => some .atMost
  | _ => none

def digits? (chars : List Char) : Option Nat :=
  if chars ≠ [] ∧ chars.all Char.isDigit then some (Nat.ofDigitChars 10 chars 0) else none

def readOperands : List Token → Option (List SqlValue × List Token)
  | .value v :: .sign [','] :: rest =>
    (readOperands rest).map fun (operands, rest) => (v :: operands, rest)
  | .value v :: .sign [')'] :: rest => some ([v], rest)
  | _ => none

/-- Reads items with a keyword between neighbours. The first argument bounds their number. -/
def readSeparated {α : Type} (separator : Keyword) (item : List Token → Option (α × List Token)) :
    Nat → List Token → Option (List α × List Token)
  | 0, _ => none
  | bound + 1, tokens =>
    (item tokens).bind fun (first, rest) =>
      match rest with
      | .keyword k :: tail =>
        if k = separator then
          (readSeparated separator item bound tail).map fun (more, rest) => (first :: more, rest)
        else some ([first], rest)
      | _ => some ([first], rest)

/-- Reads a test: a comparison, or a condition in parentheses, which `inner` reads. -/
def readTest (inner : List Token → Option (Clause × List Token)) :
    List Token → Option (Clause × List Token)
  | .sign ['('] :: rest =>
    (inner rest).bind fun
      | (clause, .sign [')'] :: rest) => some (clause, rest)
      | _ => none
  | .name column :: .keyword .IS :: .keyword .NULL :: rest => some (.isNull column, rest)
  | .name column :: .keyword .IS :: .keyword .NOT :: .keyword .NULL :: rest =>
    some (.isNotNull column, rest)
  | .name column :: .keyword .IN :: .sign ['('] :: rest =>
    (readOperands rest).map fun (operands, rest) => (.oneOf column operands, rest)
  | .name column :: .keyword .NOT :: .keyword .IN :: .sign ['('] :: rest =>
    (readOperands rest).map fun (operands, rest) => (.noneOf column operands, rest)
  | .name column :: .sign sign :: .value operand :: rest =>
    (relation? sign).map fun relation => (.compare column relation operand, rest)
  | .word a :: .sign ['='] :: .word b :: rest =>
    (digits? a).bind fun a => (digits? b).map fun b => (.constant (a = b), rest)
  | _ => none

/-- A single part stands for itself. -/
def grouped (join : List Clause → Clause) : List Clause → Clause
  | [part] => part
  | parts => join parts

def readConjunction (inner : List Token → Option (Clause × List Token)) (tokens : List Token) :
    Option (Clause × List Token) :=
  (readSeparated .AND (readTest inner) tokens.length tokens).map fun (parts, rest) =>
    (grouped .all parts, rest)

/-- Reads a condition. The first argument bounds the depth of its parentheses. -/
def readCondition : Nat → List Token → Option (Clause × List Token)
  | 0, _ => none
  | depth + 1, tokens =>
    (readSeparated .OR (readConjunction (readCondition depth)) tokens.length tokens).map
      fun (parts, rest) => (grouped .any parts, rest)

/-- Whether a condition may end where these tokens follow. -/
def mayEnd : List Token → Bool
  | [] | .sign [')'] :: _ | .keyword .ORDER :: _ | .keyword .LIMIT :: _ => true
  | _ => false

def ofTokens (tokens : List Token) : Option (Option Clause) :=
  match tokens.dropWhile (· ≠ .keyword .WHERE) with
  | [] => some none
  | _ :: tokens =>
    (readCondition (tokens.length + 1) tokens).bind fun (clause, rest) =>
      if mayEnd rest then some (some clause) else none

end Clause

/-- The condition that the text and the parameters of a statement say. -/
def conditionOf (text : String) (params : List SqlValue) : Option (Option Clause) :=
  (tokensOf text params).bind Clause.ofTokens

/-- Whether a statement selects a row of a table, as its text and its parameters are read; nothing
if they cannot be read. -/
def textSelects (text : String) (params : List SqlValue) (t : Table) (row : Row) : Option Bool :=
  (conditionOf text params).map fun condition => Clause.selects condition t row

end RecordStore
