import RecordStore.Proofs.Json.Members
import RecordStore.Proofs.Json.Numbers
import RecordStore.Json.Printer
import Mathlib.Tactic.SplitIfs

/-!
# Reading values back

The text of a value is read as that value, whatever follows it: strings with their escapes, numbers,
and arrays and objects item by item. Three things are needed. The value is nested no deeper than the
reader goes, no object in it has a key twice, since of such members only the last one would be read,
and the reader finds every double in its text. The rest of the value is read as it is even if some
double is not found there.
-/

namespace RecordStore.Json

/-! ## Values that can be read back -/

mutual

/-- How deep arrays and objects are nested in a value. -/
def depth : Json → Nat
  | .array items => itemsDepth items + 1
  | .object members => membersDepth members + 1
  | .null | .bool _ | .number _ | .string _ => 0

def itemsDepth : List Json → Nat
  | [] => 0
  | item :: rest => max (depth item) (itemsDepth rest)

def membersDepth : List (String × Json) → Nat
  | [] => 0
  | (_, value) :: rest => max (depth value) (membersDepth rest)

end

mutual

/-- No object in a value has a key twice. -/
def keysDistinct : Json → Bool
  | .array items => itemsDistinct items
  | .object members => decide (DistinctKeys members) && membersDistinct members
  | .null | .bool _ | .number _ | .string _ => true

def itemsDistinct : List Json → Bool
  | [] => true
  | item :: rest => keysDistinct item && itemsDistinct rest

def membersDistinct : List (String × Json) → Bool
  | [] => true
  | (_, value) :: rest => keysDistinct value && membersDistinct rest

end

mutual

/-- What a reader makes of the text of a value: its doubles are those that the reader finds in their
text. -/
def readBack? (reading : FloatReading) : Json → Option Json
  | .null => some .null
  | .bool b => some (.bool b)
  | .number (.integer n h) => some (.number (.integer n h))
  | .number (.float x) => (found? reading x).map fun y => .number (.float y)
  | .string s => some (.string s)
  | .array items => (itemsBack? reading items).map .array
  | .object members => (membersBack? reading members).map .object

def itemsBack? (reading : FloatReading) : List Json → Option (List Json)
  | [] => some []
  | item :: rest => (readBack? reading item).bind fun item =>
    (itemsBack? reading rest).map fun rest => item :: rest

def membersBack? (reading : FloatReading) : List (String × Json) → Option (List (String × Json))
  | [] => some []
  | (key, value) :: rest => (readBack? reading value).bind fun value =>
    (membersBack? reading rest).map fun rest => (key, value) :: rest

end

/-- Nested no deeper than given, with each key once in every object. -/
def Within (limit : Nat) (value : Json) : Prop := value.depth ≤ limit ∧ value.keysDistinct = true

/-- A value as it can stand in a text and come back: nested less than 128 deep, with each key once in
every object, and with doubles that are found in their text. -/
def Proper (value : Json) : Prop :=
  value.depth < 128 ∧ value.keysDistinct = true ∧ value.readBack? wordDouble = some value

instance (value : Json) : Decidable value.Proper := inferInstanceAs (Decidable (_ ∧ _))

theorem Proper.within {value : Json} (h : value.Proper) : value.Within 127 :=
  ⟨Nat.le_of_lt_succ h.1, h.2.1⟩

theorem proper_string (s : String) : (Json.string s).Proper := ⟨by simp [depth], rfl, rfl⟩

/-! ## Strings -/

theorem hexValue?_hexDigit (n : Nat) : hexValue? (hexDigit n) = some (n % 16) := by
  have hall : ∀ d < 16, hexValue? (Nat.digitChar d) = some d := by decide
  exact hall (n % 16) (Nat.mod_lt _ (by decide))

theorem readHex_hexDigits {n : Nat} (h : n < 256) (text : List Char) :
    readHex ('0' :: '0' :: hexDigit (n / 16) :: hexDigit n :: text) = .ok (n, text) := by
  have hzero : hexValue? '0' = some 0 := rfl
  have hn : 0 * 4096 + 0 * 256 + n / 16 % 16 * 16 + n % 16 = n := by omega
  simp only [readHex, hzero, hexValue?_hexDigit, hn]

/-- A character that is written by its number is read by its number. -/
theorem readEscape_number {c : Char} (h : c.toNat < 0x20) (text : List Char) :
    readEscape ('u' :: '0' :: '0' :: hexDigit (c.toNat / 16) :: hexDigit c.toNat :: text) =
      .ok (c, text) := by
  have hcode : readEscape
      ('u' :: '0' :: '0' :: hexDigit (c.toNat / 16) :: hexDigit c.toNat :: text) =
    readCodePoint ('0' :: '0' :: hexDigit (c.toNat / 16) :: hexDigit c.toNat :: text) := rfl
  have hnot : ¬ (0xDC00 ≤ c.toNat ∧ c.toNat ≤ 0xDFFF) := by omega
  have hsingle : c.toNat < 0xD800 ∨ 0xDBFF < c.toNat := by omega
  rw [hcode, readCodePoint, readHex_hexDigits (by omega), ok_bind]
  simp only [if_neg hnot, if_pos hsingle, Char.ofNat_toNat]

theorem readChars_escaped (c : Char) (fuel : Nat) (text : List Char) :
    readChars (fuel + 1) (escaped c ++ text) = (do
      let (more, rest) ← readChars fuel text
      .ok (c :: more, rest)) := by
  unfold escaped
  split
  next h => rw [h]; rfl
  split
  next h => rw [h]; rfl
  split
  next h => rw [h]; rfl
  split
  next h => rw [h]; rfl
  split
  next h => rw [h]; rfl
  split
  next h => rw [h]; rfl
  split
  next h => rw [h]; rfl
  split
  next h =>
    show (readEscape ('u' :: '0' :: '0' :: hexDigit (c.toNat / 16) :: hexDigit c.toNat :: text) >>=
      fun escape => readChars fuel escape.2 >>= fun read =>
        .ok (escape.1 :: read.1, read.2)) = _
    rw [readEscape_number h, ok_bind]
  next hquote hslash _ _ _ _ _ hcontrol =>
    rw [List.singleton_append, readChars, if_neg hquote, if_neg hslash, if_neg hcontrol]

theorem readChars_escapedChars (cs : List Char) (rest : List Char) {fuel : Nat}
    (h : cs.length < fuel) : readChars fuel (escapedChars cs ++ '"' :: rest) = .ok (cs, rest) := by
  induction cs generalizing fuel with
  | nil =>
    obtain ⟨fuel, rfl⟩ := Nat.exists_eq_add_of_lt h
    rfl
  | cons c cs ih =>
    obtain ⟨fuel, rfl⟩ : ∃ less, fuel = less + 1 := ⟨fuel - 1, by omega⟩
    rw [escapedChars, List.append_assoc, readChars_escaped,
      ih (by rw [List.length_cons] at h; omega), ok_bind]

theorem length_le_escapedChars (cs : List Char) : cs.length ≤ (escapedChars cs).length := by
  induction cs with
  | nil => exact Nat.le_refl _
  | cons c cs ih =>
    have hpos : 0 < (escaped c).length := by
      unfold escaped
      split_ifs <;> simp
    rw [escapedChars, List.length_append, List.length_cons]
    omega

/-- A string is read after its opening quote. -/
theorem readString_escapedChars (s : String) (rest : List Char) :
    readString (escapedChars s.toList ++ '"' :: rest) = .ok (s, rest) := by
  have hfuel : s.toList.length < (escapedChars s.toList ++ '"' :: rest).length := by
    have hle := length_le_escapedChars s.toList
    rw [List.length_append, List.length_cons]
    omega
  rw [readString, readChars_escapedChars _ _ hfuel, ok_bind]
  simp only [String.ofList_toList]

theorem readKey_escapedChars (key : String) (rest : List Char) :
    readKey (escapedChars key.toList ++ '"' :: ':' :: rest) = .ok (key, rest) := by
  rw [readKey, readString_escapedChars, ok_bind]
  rfl

/-! ## The first character -/

/-- The characters that values start with, apart from arrays and objects. -/
def StartsScalar (c : Char) : Prop :=
  c = 'n' ∨ c = 't' ∨ c = 'f' ∨ c = '"' ∨ c = '-' ∨ c.isDigit = true

/-- The characters that values start with. -/
def Starts (c : Char) : Prop := StartsScalar c ∨ c = '[' ∨ c = '{'

variable {reading : FloatReading}

theorem readScalar_starts {text : List Char} {result : Json × List Char}
    (h : readScalar reading text = .ok result) : ∃ c text', text = c :: text' ∧ StartsScalar c := by
  cases text with
  | nil => cases h
  | cons c text =>
    refine ⟨c, text, rfl, ?_⟩
    by_contra hno
    simp only [StartsScalar, not_or] at hno
    obtain ⟨hn, ht, hf, hquote, hminus, hdigit⟩ := hno
    rw [readScalar, if_neg hn, if_neg ht, if_neg hf, if_neg hquote, if_neg hminus,
      if_neg hdigit] at h
    cases h

theorem StartsScalar.ne_open {c : Char} (h : StartsScalar c) : c ≠ '[' ∧ c ≠ '{' := by
  constructor <;>
  · rintro rfl
    exact absurd h (by unfold StartsScalar; decide)

theorem Starts.skipBlanks {c : Char} (h : Starts c) (text : List Char) :
    skipBlanks (c :: text) = c :: text := by
  refine List.dropWhile_cons_of_neg ?_
  simp only [Bool.or_eq_true, decide_eq_true_eq, not_or, and_assoc]
  refine ⟨?_, ?_, ?_, ?_⟩ <;>
  · rintro rfl
    exact absurd h (by unfold Starts StartsScalar; decide)

theorem Starts.ne_close {c : Char} (h : Starts c) : c ≠ ']' := by
  rintro rfl
  exact absurd h (by unfold Starts StartsScalar; decide)

/-! ## Steps of the reader -/

variable {fuel depth : Nat} {text rest : List Char}

/-- A value that is neither an array nor an object is read at once, at any depth. -/
theorem readValue_scalar (hs : ∃ c text', text = c :: text' ∧ StartsScalar c) (hfuel : 0 < fuel)
    (depth : Nat) : readValue reading fuel depth text = readScalar reading text := by
  obtain ⟨fuel, rfl⟩ : ∃ less, fuel = less + 1 := ⟨fuel - 1, by omega⟩
  obtain ⟨c, text', rfl, hstarts⟩ := hs
  obtain ⟨hbracket, hbrace⟩ := hstarts.ne_open
  unfold readValue
  rw [Starts.skipBlanks (.inl hstarts)]
  split
  next heq => exact absurd (List.cons.inj heq).1 hbracket
  next heq => exact absurd (List.cons.inj heq).1 hbrace
  next => rfl

theorem skipBlanks_of_mem {c : Char} (h : c ∈ ['[', ']', '{', '}', ',', '"', ':']) (text : List Char) :
    skipBlanks (c :: text) = c :: text := by
  simp only [List.mem_cons, List.not_mem_nil, or_false] at h
  rcases h with rfl | rfl | rfl | rfl | rfl | rfl | rfl <;> rfl

theorem readValue_array (text : List Char) :
    readValue reading (fuel + 1) (depth + 1) ('[' :: text) = (do
    let (items, rest) ← readItems reading fuel depth text
    .ok (.array items, rest)) := by
  rw [readValue, skipBlanks_of_mem (by simp)]
  rfl

theorem readValue_object (text : List Char) :
    readValue reading (fuel + 1) (depth + 1) ('{' :: text) = (do
    let (members, rest) ← readMembers reading fuel depth text
    .ok (.ofMembers members, rest)) := by
  rw [readValue, skipBlanks_of_mem (by simp)]
  rfl

theorem readItems_nil : readItems reading (fuel + 1) depth (']' :: rest) = .ok ([], rest) := by
  rw [readItems, skipBlanks_of_mem (by simp)]
  rfl

theorem readMoreItems_nil :
    readMoreItems reading (fuel + 1) depth (']' :: rest) = .ok ([], rest) := by
  rw [readMoreItems, skipBlanks_of_mem (by simp)]
  rfl

theorem readMembers_nil : readMembers reading (fuel + 1) depth ('}' :: rest) = .ok ([], rest) := by
  rw [readMembers, skipBlanks_of_mem (by simp)]
  rfl

theorem readMoreMembers_nil :
    readMoreMembers reading (fuel + 1) depth ('}' :: rest) = .ok ([], rest) := by
  rw [readMoreMembers, skipBlanks_of_mem (by simp)]
  rfl

theorem readItems_cons (hs : ∃ c text', text = c :: text' ∧ Starts c) :
    readItems reading (fuel + 1) depth text = (do
      let (item, rest) ← readValue reading fuel depth text
      let (items, rest) ← readMoreItems reading fuel depth rest
      .ok (item :: items, rest)) := by
  obtain ⟨c, text', rfl, hstarts⟩ := hs
  conv => lhs; unfold readItems
  rw [hstarts.skipBlanks]
  split
  next heq => cases heq
  next heq => exact absurd (List.cons.inj heq).1 hstarts.ne_close
  next => rfl

theorem readMoreItems_cons (hs : ∃ c text', text = c :: text' ∧ Starts c) :
    readMoreItems reading (fuel + 1) depth (',' :: text) = (do
      let (item, rest) ← readValue reading fuel depth text
      let (items, rest) ← readMoreItems reading fuel depth rest
      .ok (item :: items, rest)) := by
  obtain ⟨c, text', rfl, hstarts⟩ := hs
  conv => lhs; rw [readMoreItems, skipBlanks_of_mem (by simp)]
  simp only
  rw [hstarts.skipBlanks]
  split
  next heq => exact absurd (List.cons.inj heq).1 hstarts.ne_close
  next => rfl

theorem skipBlanks_key (key : String) (text : List Char) :
    skipBlanks (stringChars key ++ ':' :: text) =
      '"' :: (escapedChars key.toList ++ '"' :: ':' :: text) := by
  rw [stringChars, List.cons_append, List.append_assoc, skipBlanks_of_mem (by simp)]
  rfl

theorem readMembers_cons (key : String) : readMembers reading (fuel + 1) depth
    (stringChars key ++ ':' :: text) = (do
      let (value, rest) ← readValue reading fuel depth text
      let (members, rest) ← readMoreMembers reading fuel depth rest
      .ok ((key, value) :: members, rest)) := by
  rw [readMembers, skipBlanks_key]
  simp only [readKey_escapedChars, ok_bind]

theorem readMoreMembers_cons (key : String) : readMoreMembers reading (fuel + 1) depth
    (',' :: (stringChars key ++ ':' :: text)) = (do
      let (value, rest) ← readValue reading fuel depth text
      let (members, rest) ← readMoreMembers reading fuel depth rest
      .ok ((key, value) :: members, rest)) := by
  conv => lhs; rw [readMoreMembers, skipBlanks_of_mem (by simp)]
  simp only [skipBlanks_key, readKey_escapedChars, ok_bind]

/-! ## Values -/

theorem readScalar_string (s : String) (rest : List Char) :
    readScalar reading (stringChars s ++ rest) = .ok (.string s, rest) := by
  have hquote : readScalar reading (stringChars s ++ rest) =
      readString (escapedChars s.toList ++ '"' :: rest) >>= fun read =>
        .ok (.string read.1, read.2) := by
    rw [stringChars, List.cons_append, List.append_assoc]
    rfl
  rw [hquote, readString_escapedChars, ok_bind]

/-- A value that is neither an array nor an object. -/
def IsScalar : Json → Prop
  | .array _ | .object _ => False
  | _ => True

theorem chars_startsScalar {value : Json} (hs : value.IsScalar) (rest : List Char) :
    ∃ c text, value.chars ++ rest = c :: text ∧ StartsScalar c := by
  match value with
  | .null => exact ⟨_, _, rfl, .inl rfl⟩
  | .bool true => exact ⟨_, _, rfl, .inr (.inl rfl)⟩
  | .bool false => exact ⟨_, _, rfl, .inr (.inr (.inl rfl))⟩
  | .number n =>
    obtain ⟨c, text, heq, hstarts⟩ := readScalar_starts (readScalar_nearest n)
    exact ⟨c, text ++ rest, by rw [chars, heq, List.cons_append], hstarts⟩
  | .string s => exact ⟨_, _, rfl, .inr (.inr (.inr (.inl rfl)))⟩

theorem chars_starts (value : Json) (rest : List Char) :
    ∃ c text, value.chars ++ rest = c :: text ∧ Starts c := by
  have hscalar (hs : value.IsScalar) : ∃ c text, value.chars ++ rest = c :: text ∧ Starts c :=
    (chars_startsScalar hs rest).imp fun _ => Exists.imp fun _ => And.imp_right .inl
  match value with
  | .null | .bool _ | .number _ | .string _ => exact hscalar trivial
  | .array [] | .array (_ :: _) => exact ⟨_, _, rfl, .inr (.inl rfl)⟩
  | .object [] | .object (_ :: _) => exact ⟨_, _, rfl, .inr (.inr rfl)⟩

theorem chars_length_pos (value : Json) : 0 < value.chars.length := by
  obtain ⟨c, text, heq, _⟩ := chars_starts value []
  rw [List.append_nil] at heq
  rw [heq]
  exact Nat.zero_lt_succ _

theorem follows_itemChars (items : List Json) (rest : List Char) :
    Follows (itemChars items ++ rest) := by
  cases items <;> simp [itemChars, Follows]

theorem follows_memberChars (members : List (String × Json)) (rest : List Char) :
    Follows (memberChars members ++ rest) := by
  cases members <;> simp [memberChars, Follows]

/-- The members are read back under their keys. -/
theorem keys_membersBack? {members found : Record} (h : membersBack? reading members = some found) :
    found.map Prod.fst = members.map Prod.fst := by
  induction members generalizing found with
  | nil =>
    rw [membersBack?] at h
    cases h
    rfl
  | cons member rest ih =>
    rw [membersBack?, Option.bind_eq_some_iff] at h
    obtain ⟨value, _, hrest⟩ := h
    obtain ⟨more, hmore, rfl⟩ := Option.map_eq_some_iff.mp hrest
    rw [List.map_cons, List.map_cons, ih hmore]

theorem distinctKeys_iff {members : Record} :
    DistinctKeys members ↔ (members.map Prod.fst).Pairwise (· ≠ ·) := List.pairwise_map.symm

/-- Members that are read back make up an object, since no key is there twice. -/
theorem ofMembers_of_membersBack? {members found : Record} (hk : DistinctKeys members)
    (h : membersBack? reading members = some found) : ofMembers found = .object found := by
  have hdistinct : DistinctKeys ([] ++ found) := by
    rw [List.nil_append, distinctKeys_iff, keys_membersBack? h]
    exact distinctKeys_iff.mp hk
  rw [ofMembers, setMembers_of_distinct hdistinct, List.nil_append]

theorem readScalar_chars {value : Json} (hs : value.IsScalar) (hr : Follows rest) :
    (readScalar reading (value.chars ++ rest)).toOption =
      (value.readBack? reading).map fun found => (found, rest) := by
  match value with
  | .null | .bool true | .bool false => rfl
  | .number (.integer n h) =>
    rw [chars, readScalar_integer reading h hr]
    rfl
  | .number (.float x) =>
    have hnumber : (Json.number (.float x)).chars = FloatStyle.json.text x := rfl
    rw [hnumber, readScalar_float reading x hr, readBack?, Option.map_map]
    rfl
  | .string s =>
    rw [chars, readScalar_string]
    rfl

/- The fuel is counted in the text that is left: an array or an object that opens takes two steps
and one character. -/
mutual

theorem readValue_chars (value : Json) {fuel depth : Nat} {rest : List Char}
    (hd : value.depth ≤ depth) (hk : value.keysDistinct = true)
    (hf : 2 * value.chars.length ≤ fuel) (hr : Follows rest) :
    (readValue reading fuel depth (value.chars ++ rest)).toOption =
      (value.readBack? reading).map fun found => (found, rest) := by
  have hpos := value.chars_length_pos
  have hscalar (hs : value.IsScalar) : (readValue reading fuel depth (value.chars ++ rest)).toOption =
      (value.readBack? reading).map fun found => (found, rest) := by
    rw [readValue_scalar (chars_startsScalar hs rest) (by omega), readScalar_chars hs hr]
  match value with
  | .null | .bool _ | .number _ | .string _ => exact hscalar trivial
  | .array items =>
    obtain ⟨inner, rfl⟩ : ∃ inner, depth = inner + 1 := ⟨depth - 1, by rw [Json.depth] at hd; omega⟩
    obtain ⟨less, rfl⟩ : ∃ less, fuel = less + 2 := ⟨fuel - 2, by omega⟩
    match items with
    | [] =>
      show (readValue reading (less + 2) (inner + 1) ('[' :: ']' :: rest)).toOption = _
      rw [readValue_array, readItems_nil, ok_bind]
      rfl
    | item :: items =>
      simp only [Json.depth, itemsDepth] at hd
      simp only [keysDistinct, itemsDistinct, Bool.and_eq_true] at hk
      simp only [chars, List.length_cons, List.length_append] at hf
      have hitem : (readValue reading less inner (item.chars ++ (itemChars items ++ rest))).toOption =
          _ := readValue_chars item (by omega) hk.1 (by omega) (follows_itemChars items rest)
      have hitems : (readMoreItems reading less inner (itemChars items ++ rest)).toOption = _ :=
        readMoreItems_chars items (by omega) hk.2 (by omega)
      rw [chars, List.cons_append, List.append_assoc, readValue_array,
        readItems_cons (chars_starts item _), readBack?, itemsBack?]
      simp only [toOption_bind, hitem, Option.bind_map, Function.comp_def, hitems]
      cases readBack? reading item <;> cases itemsBack? reading items <;> rfl
  | .object members =>
    obtain ⟨inner, rfl⟩ : ∃ inner, depth = inner + 1 := ⟨depth - 1, by rw [Json.depth] at hd; omega⟩
    obtain ⟨less, rfl⟩ : ∃ less, fuel = less + 2 := ⟨fuel - 2, by omega⟩
    match members with
    | [] =>
      show (readValue reading (less + 2) (inner + 1) ('{' :: '}' :: rest)).toOption = _
      rw [readValue_object, readMembers_nil, ok_bind]
      rfl
    | (key, member) :: members =>
      simp only [Json.depth, membersDepth] at hd
      simp only [keysDistinct, membersDistinct, Bool.and_eq_true, decide_eq_true_eq] at hk
      simp only [chars, List.length_cons, List.length_append] at hf
      have hmember : (readValue reading less inner
          (member.chars ++ (memberChars members ++ rest))).toOption = _ :=
        readValue_chars member (by omega) hk.2.1 (by omega) (follows_memberChars members rest)
      have hmembers :
          (readMoreMembers reading less inner (memberChars members ++ rest)).toOption = _ :=
        readMoreMembers_chars members (by omega) hk.2.2 (by omega)
      rw [chars, List.cons_append, List.append_assoc, List.cons_append, List.append_assoc,
        readValue_object, readMembers_cons, readBack?]
      simp only [toOption_bind, hmember, Option.bind_map, Function.comp_def, hmembers]
      have hobject {found : Record} (h : membersBack? reading ((key, member) :: members) = some found) :
          ofMembers found = .object found := ofMembers_of_membersBack? hk.1 h
      rw [membersBack?] at hobject ⊢
      cases hvalue : readBack? reading member with
      | none => rfl
      | some found =>
        cases hback : membersBack? reading members with
        | none => rfl
        | some more =>
          rw [hvalue, hback] at hobject
          exact congrArg (fun value => some (value, rest)) (hobject rfl)

theorem readMoreItems_chars (items : List Json) {fuel depth : Nat} {rest : List Char}
    (hd : itemsDepth items ≤ depth) (hk : itemsDistinct items = true)
    (hf : 2 * (itemChars items).length ≤ fuel) :
    (readMoreItems reading fuel depth (itemChars items ++ rest)).toOption =
      (itemsBack? reading items).map fun found => (found, rest) := by
  match items with
  | [] =>
    obtain ⟨less, rfl⟩ : ∃ less, fuel = less + 1 := ⟨fuel - 1, by simp [itemChars] at hf; omega⟩
    show (readMoreItems reading (less + 1) depth (']' :: rest)).toOption = _
    rw [readMoreItems_nil]
    rfl
  | item :: items =>
    simp only [itemsDepth] at hd
    simp only [itemsDistinct, Bool.and_eq_true] at hk
    simp only [itemChars, List.length_cons, List.length_append] at hf
    obtain ⟨less, rfl⟩ : ∃ less, fuel = less + 1 := ⟨fuel - 1, by omega⟩
    have hitem : (readValue reading less depth (item.chars ++ (itemChars items ++ rest))).toOption =
        _ := readValue_chars item (by omega) hk.1 (by omega) (follows_itemChars items rest)
    have hitems : (readMoreItems reading less depth (itemChars items ++ rest)).toOption = _ :=
      readMoreItems_chars items (by omega) hk.2 (by omega)
    rw [itemChars, List.cons_append, List.append_assoc, readMoreItems_cons (chars_starts item _),
      itemsBack?]
    simp only [toOption_bind, hitem, Option.bind_map, Function.comp_def, hitems]
    cases readBack? reading item <;> cases itemsBack? reading items <;> rfl

theorem readMoreMembers_chars (members : List (String × Json)) {fuel depth : Nat} {rest : List Char}
    (hd : membersDepth members ≤ depth) (hk : membersDistinct members = true)
    (hf : 2 * (memberChars members).length ≤ fuel) :
    (readMoreMembers reading fuel depth (memberChars members ++ rest)).toOption =
      (membersBack? reading members).map fun found => (found, rest) := by
  match members with
  | [] =>
    obtain ⟨less, rfl⟩ : ∃ less, fuel = less + 1 := ⟨fuel - 1, by simp [memberChars] at hf; omega⟩
    show (readMoreMembers reading (less + 1) depth ('}' :: rest)).toOption = _
    rw [readMoreMembers_nil]
    rfl
  | (key, member) :: members =>
    simp only [membersDepth] at hd
    simp only [membersDistinct, Bool.and_eq_true] at hk
    simp only [memberChars, List.length_cons, List.length_append] at hf
    obtain ⟨less, rfl⟩ : ∃ less, fuel = less + 1 := ⟨fuel - 1, by omega⟩
    have hmember : (readValue reading less depth
        (member.chars ++ (memberChars members ++ rest))).toOption = _ :=
      readValue_chars member (by omega) hk.1 (by omega) (follows_memberChars members rest)
    have hmembers : (readMoreMembers reading less depth (memberChars members ++ rest)).toOption = _ :=
      readMoreMembers_chars members (by omega) hk.2 (by omega)
    rw [memberChars, List.cons_append, List.append_assoc, List.cons_append, List.append_assoc,
      readMoreMembers_cons, membersBack?]
    simp only [toOption_bind, hmember, Option.bind_map, Function.comp_def, hmembers]
    cases readBack? reading member <;> cases membersBack? reading members <;> rfl

end

/-- The text of a value is read as what its reader makes of it. -/
theorem readDocument_chars {value : Json} (hd : value.depth < 128) (hk : value.keysDistinct = true) :
    (readDocument reading value.chars).toOption = value.readBack? reading := by
  have hvalue : (readValue reading (readingFuel value.chars) maxDepth (value.chars ++ [])).toOption =
      (value.readBack? reading).map fun found => (found, []) :=
    readValue_chars value (Nat.le_of_lt_succ hd) hk (Nat.le_add_right _ 2) nofun
  rw [List.append_nil] at hvalue
  rw [readDocument, toOption_bind, hvalue]
  cases value.readBack? reading <;> rfl

/-- The text of a value is read as what the reader makes of it. -/
theorem readWith_text {value found : Json} (hd : value.depth < 128) (hk : value.keysDistinct = true)
    (hback : value.readBack? reading = some found) : readWith reading value.text = .ok found := by
  have hdocument := (readDocument_chars hd hk).trans hback
  rw [toOption_eq_some] at hdocument
  rw [readWith, Json.text, String.toList_ofList, hdocument]
  rfl

/-- The text of a value is read as the value. -/
theorem read_text {value : Json} (h : value.Proper) : Json.read value.text = .ok value :=
  readWith_text h.1 h.2.1 h.2.2

/-! ## The nearest doubles -/

mutual

/-- A reader that takes the nearest doubles makes of every text the value that was written. -/
theorem readBack?_nearest (value : Json) : value.readBack? nearestDouble = some value := by
  match value with
  | .null | .bool _ | .string _ | .number (.integer _ _) => rfl
  | .number (.float x) => rw [readBack?, found?_nearest, Option.map_some]
  | .array items => rw [readBack?, itemsBack?_nearest items, Option.map_some]
  | .object members => rw [readBack?, membersBack?_nearest members, Option.map_some]

theorem itemsBack?_nearest (items : List Json) : itemsBack? nearestDouble items = some items := by
  match items with
  | [] => rfl
  | item :: rest =>
    rw [itemsBack?, readBack?_nearest item, itemsBack?_nearest rest, Option.bind_some,
      Option.map_some]

theorem membersBack?_nearest (members : List (String × Json)) :
    membersBack? nearestDouble members = some members := by
  match members with
  | [] => rfl
  | (key, value) :: rest =>
    rw [membersBack?, readBack?_nearest value, membersBack?_nearest rest, Option.bind_some,
      Option.map_some]

end

/-- So is every text whose values are not nested too deep and have each key once in an object. -/
theorem readNearest_text {value : Json} (h : value.Within 127) :
    readWith nearestDouble value.text = .ok value :=
  readWith_text (Nat.lt_succ_of_le h.1) h.2 (readBack?_nearest value)

end RecordStore.Json
