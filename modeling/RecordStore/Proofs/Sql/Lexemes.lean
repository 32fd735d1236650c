import RecordStore.Proofs.Sql.Tokens
import RecordStore.Proofs.Number.Literals
import Mathlib.Tactic.SplitIfs

/-!
# Lexemes of SQL text

How the text of a statement without parameters is taken apart: quoted names and quoted texts, in which
a quote written twice stands for one, words, numbers and signs, with blanks and comments between them.
Reading quotes undoes quoting and nothing else, so that nothing inside of quotes is taken for a part of
the statement, and what stands behind the quotes is left as it is.
-/

namespace RecordStore

/-! ## Quotes -/

/-- Reads what stands before the quote that ends a quoted text, and leaves what follows that quote. -/
def readInside (quote : Char) : List Char → Option (List Char × List Char)
  | [] => none
  | [c] => if c = quote then some ([], []) else none
  | c :: d :: rest =>
    if c ≠ quote then (readInside quote (d :: rest)).map fun (text, rest) => (c :: text, rest)
    else if d = quote then (readInside quote rest).map fun (text, rest) => (quote :: text, rest)
    else some ([], d :: rest)

def readQuoted (quote : Char) : List Char → Option (List Char × List Char)
  | [] => none
  | c :: rest => if c = quote then readInside quote rest else none

section
variable {quote c : Char} {text rest : List Char}

theorem readInside_of_ne (hc : c ≠ quote) (input : List Char) : readInside quote (c :: input) =
    (readInside quote input).map fun (text, rest) => (c :: text, rest) := by
  cases input with
  | nil => simp [readInside, hc]
  | cons d more => simp [readInside, hc]

theorem readInside_twice (input : List Char) : readInside quote (quote :: quote :: input) =
    (readInside quote input).map fun (text, rest) => (quote :: text, rest) := by
  simp [readInside]

theorem readInside_end (h : rest.head? ≠ some quote) :
    readInside quote (quote :: rest) = some ([], rest) := by
  cases rest with
  | nil => simp [readInside]
  | cons d more =>
    have hd : d ≠ quote := by simpa using h
    simp [readInside, hd]

theorem readInside_doubleQuotes (h : rest.head? ≠ some quote) :
    readInside quote (doubleQuotes quote text ++ quote :: rest) = some (text, rest) := by
  induction text with
  | nil => exact readInside_end h
  | cons c more ih =>
    rw [doubleQuotes]
    split
    next heq =>
      rw [heq, List.cons_append, List.cons_append, readInside_twice, ih]
      rfl
    next hne =>
      rw [List.cons_append, readInside_of_ne hne, ih]
      rfl

/-- What is read to the end of quotes was quoted. The induction goes along the reader. -/
theorem doubleQuotes_of_readInside {input : List Char}
    (h : readInside quote input = some (text, rest)) :
    input = doubleQuotes quote text ++ quote :: rest ∧ rest.head? ≠ some quote := by
  fun_induction readInside quote input generalizing text rest with
  | case1 => cases h
  | case2 =>
    cases h
    exact ⟨rfl, nofun⟩
  | case3 => cases h
  | case4 c d more hc ih =>
    obtain ⟨⟨text, rest⟩, hread, heq⟩ := Option.map_eq_some_iff.mp h
    cases heq
    obtain ⟨hinput, hhead⟩ := ih hread
    rw [hinput, doubleQuotes, if_neg hc]
    exact ⟨rfl, hhead⟩
  | case5 c more hc ih =>
    obtain ⟨⟨text, rest⟩, hread, heq⟩ := Option.map_eq_some_iff.mp h
    cases heq
    obtain ⟨hinput, hhead⟩ := ih hread
    rw [not_not] at hc
    rw [hinput, hc, doubleQuotes, if_pos rfl]
    exact ⟨rfl, hhead⟩
  | case6 c d more hc hd =>
    cases h
    rw [not_not] at hc
    rw [hc]
    exact ⟨rfl, by simpa using hd⟩

/-- Quotes are read exactly where they were written, up to a character that is not their own. -/
theorem readQuoted_eq_some_iff {input : List Char} : readQuoted quote input = some (text, rest) ↔
    input = quoted quote text ++ rest ∧ rest.head? ≠ some quote := by
  have hquoted : quoted quote text ++ rest = quote :: (doubleQuotes quote text ++ quote :: rest) := by
    simp [quoted]
  rw [hquoted]
  constructor
  · intro h
    cases input with
    | nil => cases h
    | cons c more =>
      rw [readQuoted, Option.ite_none_right_eq_some] at h
      obtain ⟨rfl, hread⟩ := h
      obtain ⟨rfl, hhead⟩ := doubleQuotes_of_readInside hread
      exact ⟨rfl, hhead⟩
  · rintro ⟨rfl, hhead⟩
    rw [readQuoted, if_pos rfl, readInside_doubleQuotes hhead]

theorem readQuoted_quoted (h : rest.head? ≠ some quote) :
    readQuoted quote (quoted quote text ++ rest) = some (text, rest) :=
  readQuoted_eq_some_iff.mpr ⟨rfl, h⟩

end

/-! ## Lexemes -/

/-- A part of a statement: a word, a quoted name, a quoted text, a number without a sign, or a sign. -/
inductive Lexeme
  | word (s : String)
  | name (s : String)
  | text (s : String)
  | number (chars : List Char)
  | sign (c : Char)
deriving DecidableEq

def isSqlBlank (c : Char) : Bool := [' ', '\t', '\n', '\x0c', '\r'].contains c

theorem isSqlBlank_iff {c : Char} :
    isSqlBlank c = true ↔ c = ' ' ∨ c = '\t' ∨ c = '\n' ∨ c = '\x0c' ∨ c = '\r' := by
  simp [isSqlBlank]

/-- The signs that statements are written with. -/
def sqlSigns : List Char :=
  ['(', ')', ',', ';', '+', '-', '*', '/', '%', '=', '<', '>', '!', '&', '|', '~', '?']

/-- Whether a number goes on with a character behind another one: with letters, digits and points, and
with a sign behind the letter of exponents. -/
def numberGoesOn (previous c : Char) : Bool :=
  isIdentifierRest c || c = '.' ||
    ((c = '+' || c = '-') && (previous = 'e' || previous = 'E'))

/-- The rest of a number behind its first character, and what follows it. -/
def splitNumber (previous : Char) : List Char → List Char × List Char
  | [] => ([], [])
  | c :: rest =>
    if numberGoesOn previous c then
      let (chars, rest) := splitNumber c rest
      (c :: chars, rest)
    else ([], c :: rest)

/-- What follows a comment that ends with an asterisk and a slash. -/
def afterComment : List Char → List Char
  | [] => []
  | '*' :: '/' :: rest => rest
  | _ :: rest => afterComment rest

/-- Reads the lexeme that begins with a character. A blank is none, and neither is a comment. -/
def readLexeme (c : Char) (rest : List Char) : Option (Option Lexeme × List Char) :=
  if isSqlBlank c then some (none, rest)
  else if c = '-' ∧ rest.head? = some '-' then some (none, rest.dropWhile (· ≠ '\n'))
  else if c = '/' ∧ rest.head? = some '*' then some (none, afterComment rest.tail)
  else if c = '"' then
    (readQuoted c (c :: rest)).map fun read => (some (.name (String.ofList read.1)), read.2)
  else if c = '\'' then
    (readQuoted c (c :: rest)).map fun read => (some (.text (String.ofList read.1)), read.2)
  else if c.isDigit ∨ c = '.' then
    let (chars, rest) := splitNumber c rest
    some (some (.number (c :: chars)), rest)
  else if isIdentifierStart c then
    some (some (.word (String.ofList (c :: rest.takeWhile isIdentifierRest))),
      rest.dropWhile isIdentifierRest)
  else if c ∈ sqlSigns then some (some (.sign c), rest)
  else none

theorem length_splitNumber (previous : Char) (text : List Char) :
    (splitNumber previous text).2.length ≤ text.length := by
  induction text generalizing previous with
  | nil => exact Nat.le_refl _
  | cons c rest ih =>
    rw [splitNumber]
    split
    · exact Nat.le_succ_of_le (ih c)
    · exact Nat.le_refl _

theorem length_afterComment (text : List Char) : (afterComment text).length ≤ text.length := by
  fun_induction afterComment text with
  | case1 => exact Nat.le_refl _
  | case2 rest => exact Nat.le_add_right _ 2
  | case3 c rest _ ih => exact Nat.le_succ_of_le ih

theorem length_readQuoted {quote : Char} {input text rest : List Char}
    (h : readQuoted quote input = some (text, rest)) : rest.length < input.length := by
  obtain ⟨rfl, -⟩ := readQuoted_eq_some_iff.mp h
  simp only [quoted, List.length_append, List.length_cons]
  omega

theorem length_readLexeme {c : Char} {rest more : List Char} {lexeme : Option Lexeme}
    (h : readLexeme c rest = some (lexeme, more)) : more.length ≤ rest.length := by
  have hquoted : ∀ {token : List Char × List Char → Option Lexeme × List Char},
      (∀ read, (token read).2 = read.2) → (readQuoted c (c :: rest)).map token = some (lexeme, more) →
        more.length ≤ rest.length := by
    intro token hrest h
    obtain ⟨read, hread, heq⟩ := Option.map_eq_some_iff.mp h
    have hmore : more = read.2 := (congrArg Prod.snd heq).symm.trans (hrest read)
    rw [hmore]
    exact Nat.le_of_lt_succ (length_readQuoted hread)
  unfold readLexeme at h
  split_ifs at h
  · cases h
    exact Nat.le_refl _
  · cases h
    exact (List.dropWhile_suffix _).length_le
  · cases h
    exact Nat.le_trans (length_afterComment _) (List.length_tail ▸ Nat.sub_le _ _)
  · exact hquoted (fun _ => rfl) h
  · exact hquoted (fun _ => rfl) h
  · cases h
    exact length_splitNumber c rest
  · cases h
    exact (List.dropWhile_suffix _).length_le
  · cases h
    exact Nat.le_refl _

/-- The lexemes of a text, one after the other. -/
def lexemes : List Char → Option (List Lexeme)
  | [] => some []
  | c :: rest =>
    match _h : readLexeme c rest with
    | none => none
    | some (lexeme, more) => (lexemes more).map (lexeme.toList ++ ·)
termination_by text => text.length
decreasing_by
  exact Nat.lt_succ_of_le (length_readLexeme ‹_›)

theorem lexemes_of_readLexeme {c : Char} {rest more : List Char} {lexeme : Option Lexeme}
    (h : readLexeme c rest = some (lexeme, more)) :
    lexemes (c :: rest) = (lexemes more).map (lexeme.toList ++ ·) := by
  rw [lexemes]
  split
  next hnone => rw [h] at hnone; cases hnone
  next hread => rw [h] at hread; cases hread; rfl

/-! ## Texts and their lexemes -/

/-- Nothing follows, or a character that separates lexemes. -/
def Apart (rest : List Char) : Prop := ∀ c ∈ rest.head?, isSeparator c = true

theorem apart_cons {c : Char} (h : isSeparator c = true) (rest : List Char) : Apart (c :: rest) := by
  rintro _ ⟨⟩
  exact h

theorem Apart.ne {rest : List Char} (h : Apart rest) {c : Char} (hc : isSeparator c = false) :
    rest.head? ≠ some c := by
  intro hhead
  rw [h c hhead] at hc
  cases hc

theorem isIdentifierRest_of_isSeparator {c : Char} (h : isSeparator c = true) :
    ¬ isIdentifierRest c = true := by
  simp only [isSeparator, List.contains_iff_mem, List.mem_cons, List.not_mem_nil, or_false] at h
  rcases h with rfl | rfl | rfl | rfl <;> decide

/-- No word begins with a digit. -/
theorem not_isDigit_of_isIdentifierStart {c : Char} (h : isIdentifierStart c = true) :
    c.isDigit = false := by
  have halpha : c.isAlpha = (decide ('A' ≤ c ∧ c ≤ 'Z') ||
      (decide ('a' ≤ c) && decide (c ≤ 'z'))) := rfl
  have hdigit : c.isDigit = (decide ('0' ≤ c) && decide (c ≤ '9')) := rfl
  simp only [isIdentifierStart, halpha, Bool.or_eq_true, Bool.and_eq_true, decide_eq_true_eq] at h
  rw [hdigit, Bool.and_eq_false_iff, decide_eq_false_iff_not, decide_eq_false_iff_not]
  refine .inr fun hle => ?_
  have hhigh : c.toNat ≤ 57 := hle
  rcases h with (⟨hlow, -⟩ | ⟨hlow, -⟩) | rfl
  · have hletter : 65 ≤ c.toNat := hlow
    omega
  · have hletter : 97 ≤ c.toNat := hlow
    omega
  · exact absurd hhigh (by decide)

/-! ### Numbers -/

/-- Whatever stands before a text, a number goes on with some characters of it, and with no more. -/
def NumberRun (text chars rest : List Char) : Prop :=
  ∀ previous, splitNumber previous text = (chars, rest)

namespace NumberRun

variable {text chars rest : List Char}

theorem nil (hr : Apart rest) : NumberRun rest [] rest := by
  intro previous
  cases rest with
  | nil => rfl
  | cons c more =>
    have hc : numberGoesOn previous c = false := by
      have hr' := hr c rfl
      simp only [isSeparator, List.contains_iff_mem, List.mem_cons, List.not_mem_nil, or_false] at hr'
      rcases hr' with rfl | rfl | rfl | rfl <;> rfl
    simp [splitNumber, hc]

theorem cons {c : Char} (hc : isIdentifierRest c = true ∨ c = '.') (h : NumberRun text chars rest) :
    NumberRun (c :: text) (c :: chars) rest := by
  intro previous
  have hgoes : numberGoesOn previous c = true := by
    rcases hc with hrest | rfl
    · simp [numberGoesOn, hrest]
    · simp [numberGoesOn]
  rw [splitNumber, if_pos hgoes, h c]

/-- A sign goes on with a number only behind the letter of exponents. -/
theorem cons_sign {c : Char} (hc : c = 'e' ∨ c = 'E') {d : Char} (hd : d = '+' ∨ d = '-')
    (h : NumberRun text chars rest) : NumberRun (c :: d :: text) (c :: d :: chars) rest := by
  intro previous
  have hletter : numberGoesOn previous c = true := by
    rcases hc with rfl | rfl <;> simp [numberGoesOn, isIdentifierRest]
  have hsign : numberGoesOn c d = true := by
    rcases hc with rfl | rfl <;> rcases hd with rfl | rfl <;> rfl
  rw [splitNumber, if_pos hletter, splitNumber, if_pos hsign, h d]

theorem append {digits : List Char} (hd : ∀ c ∈ digits, c.isDigit) (h : NumberRun text chars rest) :
    NumberRun (digits ++ text) (digits ++ chars) rest := by
  induction digits with
  | nil => exact h
  | cons c more ih =>
    have hc : isIdentifierRest c = true := by
      simp [isIdentifierRest, Char.isAlphanum, hd c List.mem_cons_self]
    exact cons (.inl hc) (ih fun c hc => hd c (List.mem_cons_of_mem _ hc))

theorem exponent {exponent : List Char} {n : Int} (h : ExponentText exponent n) (hr : Apart rest) :
    NumberRun (exponent ++ rest) exponent rest := by
  have hinteger : ∀ {c : Char} {text : List Char} {n : Int}, c = 'e' ∨ c = 'E' → IntegerText text n →
      NumberRun (c :: text ++ rest) (c :: text) rest := by
    rintro c _ _ hc ⟨hs, -, hd⟩
    have hdigits := append hd (nil hr)
    rw [List.append_nil] at hdigits
    have hletter : isIdentifierRest c = true := by rcases hc with rfl | rfl <;> rfl
    cases hs with
    | none => exact cons (.inl hletter) hdigits
    | plus => exact cons_sign hc (.inl rfl) hdigits
    | minus => exact cons_sign hc (.inr rfl) hdigits
  cases h with
  | none => exact nil hr
  | small hn => exact hinteger (.inl rfl) hn
  | capital hn => exact hinteger (.inr rfl) hn

theorem magnitude {coefficient : Nat} {exponent : Int} (h : MagnitudeText text coefficient exponent)
    (hr : Apart rest) : NumberRun (text ++ rest) text rest := by
  obtain ⟨hm, he⟩ := h
  rw [List.append_assoc]
  cases hm with
  | whole _ hw => exact append hw (NumberRun.exponent he hr)
  | point _ hw hf =>
    rw [List.append_assoc, List.append_assoc]
    exact append hw (cons (.inr rfl) (append hf (NumberRun.exponent he hr)))

end NumberRun

/-! ### Readings -/

/-- A text is read as some lexemes, if what follows is apart from it. -/
def Lexes (chars : List Char) (ts : List Lexeme) : Prop :=
  ∀ rest, Apart rest → lexemes (chars ++ rest) = (lexemes rest).map (ts ++ ·)

/-- A text is read as some lexemes and is apart from what it follows. -/
structure Follows (chars : List Char) (ts : List Lexeme) : Prop where
  lexes : Lexes chars ts
  apart : ∀ rest, Apart rest → Apart (chars ++ rest)

variable {chars more : List Char} {ts us : List Lexeme}

theorem Lexes.append (h : Lexes chars ts) (h' : Follows more us) :
    Lexes (chars ++ more) (ts ++ us) := by
  intro rest hr
  rw [List.append_assoc, h _ (h'.apart rest hr), h'.lexes rest hr, Option.map_map]
  congr 1
  funext ws
  exact (List.append_assoc ts us ws).symm

namespace Follows

theorem nil : Follows [] [] := ⟨fun rest _ => by simp, fun _ hr => hr⟩

theorem append (h : Follows chars ts) (h' : Follows more us) : Follows (chars ++ more) (ts ++ us) := by
  refine ⟨h.lexes.append h', fun rest hr => ?_⟩
  rw [List.append_assoc]
  exact h.apart _ (h'.apart rest hr)

end Follows

namespace Lexes

theorem lexemes_eq (h : Lexes chars ts) : lexemes chars = some ts := by
  have hread := h [] nofun
  rw [List.append_nil] at hread
  rw [hread, lexemes, Option.map_some, List.append_nil]

/-- One lexeme that is read up to what is apart from it. -/
theorem of_readLexeme {c : Char} {t : Lexeme}
    (h : ∀ rest, Apart rest → readLexeme c (chars ++ rest) = some (some t, rest)) :
    Lexes (c :: chars) [t] := by
  intro rest hr
  rw [List.cons_append, lexemes_of_readLexeme (h rest hr)]
  rfl

theorem blank (h : Lexes chars ts) : Follows (' ' :: chars) ts := by
  refine ⟨fun rest hr => ?_, fun rest _ => apart_cons rfl _⟩
  have hread : readLexeme ' ' (chars ++ rest) = some (none, chars ++ rest) := rfl
  rw [List.cons_append, lexemes_of_readLexeme hread, h rest hr, Option.map_map]
  rfl

/-- A parenthesis or a comma stands for itself, whatever follows it. -/
theorem sign {c : Char} (hc : c ∈ ['(', ')', ',']) (h : Lexes chars ts) :
    Follows (c :: chars) (.sign c :: ts) := by
  have hsign : isSeparator c = true ∧ ∀ text, readLexeme c text = some (some (.sign c), text) := by
    simp only [List.mem_cons, List.not_mem_nil, or_false] at hc
    rcases hc with rfl | rfl | rfl <;> exact ⟨rfl, fun _ => rfl⟩
  refine ⟨fun rest hr => ?_, fun rest _ => apart_cons hsign.1 _⟩
  rw [List.cons_append, lexemes_of_readLexeme (hsign.2 _), h rest hr, Option.map_map]
  rfl

/-- A quoted text is one lexeme, whatever it holds. -/
theorem of_quoted {quote : Char} {token : String → Lexeme} (hquote : isSeparator quote = false)
    (hread : ∀ rest, readLexeme quote rest = (readQuoted quote (quote :: rest)).map
      fun read => (some (token (String.ofList read.1)), read.2)) (s : String) :
    Lexes (quoted quote s.toList) [token s] := by
  refine of_readLexeme fun rest hr => ?_
  have hinside : readQuoted quote (quoted quote s.toList ++ rest) = some (s.toList, rest) :=
    readQuoted_quoted (hr.ne hquote)
  rw [quoted, List.cons_append] at hinside
  rw [hread, hinside, Option.map_some, String.ofList_toList]

theorem name (s : String) : Lexes (quotedName s) [.name s] := of_quoted rfl (fun _ => rfl) s

theorem text (s : String) : Lexes (quotedText s) [.text s] := of_quoted rfl (fun _ => rfl) s

theorem word {s : String} (h : isIdentifier s = true) : Lexes s.toList [.word s] := by
  unfold isIdentifier isIdentifierChars at h
  split at h
  · cases h
  next c more hs =>
    rw [Bool.and_eq_true] at h
    obtain ⟨hstart, hmore⟩ := h
    rw [hs]
    refine of_readLexeme fun rest hr => ?_
    have hne : ∀ d, isIdentifierStart d = false → c ≠ d := by
      rintro d hd rfl
      rw [hstart] at hd
      cases hd
    have hblank : isSqlBlank c = false := by
      rw [Bool.eq_false_iff, Ne, isSqlBlank_iff]
      rintro (rfl | rfl | rfl | rfl | rfl) <;> exact hne _ rfl rfl
    have hend : rest.takeWhile isIdentifierRest = [] ∧ rest.dropWhile isIdentifierRest = rest := by
      cases rest with
      | nil => exact ⟨rfl, rfl⟩
      | cons d rest =>
        have hd := isIdentifierRest_of_isSeparator (hr d rfl)
        exact ⟨List.takeWhile_cons_of_neg hd, List.dropWhile_cons_of_neg hd⟩
    have htake : (more ++ rest).takeWhile isIdentifierRest = more := by
      rw [List.takeWhile_append_of_pos (List.all_eq_true.mp hmore), hend.1, List.append_nil]
    have hdrop : (more ++ rest).dropWhile isIdentifierRest = rest := by
      rw [List.dropWhile_append_of_pos (List.all_eq_true.mp hmore), hend.2]
    simp only [readLexeme, hblank, hne '-' rfl, hne '/' rfl, hne '"' rfl, hne '\'' rfl, hne '.' rfl,
      not_isDigit_of_isIdentifierStart hstart, hstart, htake, hdrop, false_and, or_self, if_false,
      if_true, Bool.false_eq_true, ← hs, String.ofList_toList]

section
variable {text : List Char} {coefficient : Nat} {exponent : Int}
variable (h : MagnitudeText text coefficient exponent)
include h

theorem number : Lexes text [.number text] := by
  obtain ⟨c, more, rfl, hc⟩ := Decimal.head?_magnitude h
  refine of_readLexeme fun rest hr => ?_
  have hrun := NumberRun.magnitude h hr c
  have hgoes : numberGoesOn c c = true := by
    rcases hc with hdigit | rfl
    · simp [numberGoesOn, isIdentifierRest, Char.isAlphanum, hdigit]
    · rfl
  rw [List.cons_append, splitNumber, if_pos hgoes, Prod.mk.injEq, List.cons.injEq] at hrun
  obtain ⟨⟨-, hmore⟩, hrest⟩ := hrun
  have hne : ∀ d, (d.isDigit || d = '.') = false → c ≠ d := by
    rintro d hd rfl
    rw [Bool.or_eq_false_iff, decide_eq_false_iff_not] at hd
    exact hc.elim (by simp [hd.1]) hd.2
  have hblank : isSqlBlank c = false := by
    rw [Bool.eq_false_iff, Ne, isSqlBlank_iff]
    rintro (rfl | rfl | rfl | rfl | rfl) <;> exact hne _ rfl rfl
  simp only [readLexeme, hblank, hne '-' rfl, hne '/' rfl, hne '"' rfl, hne '\'' rfl, hc, hmore, hrest,
    false_and, if_false, if_true, Bool.false_eq_true]

/-- A hyphen in front of a number is a sign of its own. -/
theorem hyphen : Lexes ('-' :: text) [.sign '-', .number text] := by
  intro rest hr
  obtain ⟨c, more, htext, hc⟩ := Decimal.head?_magnitude h
  have hhead : (text ++ rest).head? ≠ some '-' := by
    rw [htext]
    rcases hc with hdigit | rfl
    · simpa using (ne_sign_of_isDigit hdigit).1
    · simp
  have hread : readLexeme '-' (text ++ rest) = some (some (.sign '-'), text ++ rest) := by
    have hblank : isSqlBlank '-' = false := rfl
    rw [readLexeme, if_neg (by simp [hblank]), if_neg fun hcomment => hhead hcomment.2]
    rfl
  rw [List.cons_append, lexemes_of_readLexeme hread, number h rest hr, Option.map_map]
  rfl

end

/-- Texts with commas between them are read one by one. -/
theorem commas {texts : List (List Char)} {tss : List (List Lexeme)}
    (h : List.Forall₂ Lexes texts tss) :
    Lexes (joinWith [',', ' '] texts) (joinWith [.sign ','] tss) := by
  induction h with
  | nil => exact Follows.nil.lexes
  | cons hfirst hrest ih =>
    cases hrest with
    | nil => exact hfirst
    | cons _ _ =>
      simp only [joinWith, List.append_assoc]
      exact hfirst.append (sign (by decide) ih.blank.lexes)

end Lexes

/-- Words with a blank in front of each. -/
theorem Follows.words (ws : List String) (h : ∀ w ∈ ws, isIdentifier w = true) :
    Follows (ws.flatMap fun w => ' ' :: w.toList) (ws.map .word) := by
  induction ws with
  | nil => exact nil
  | cons w more ih =>
    exact (Lexes.word (h w List.mem_cons_self)).blank.append
      (ih fun w hw => h w (List.mem_cons_of_mem _ hw))

end RecordStore
