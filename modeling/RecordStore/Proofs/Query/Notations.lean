import RecordStore.Query.Listing
import RecordStore.Proofs.Number.Nearest
import RecordStore.Proofs.Query.Grammar
import RecordStore.Proofs.Query.Selection
import RecordStore.Proofs.Text.Parts

/-!
# Notations of sort orders

A sort order is written as a text of fields, as a list of pairs or as an object. Which values are
written for which keys is said without the reader: `SortKey.Writes`. The reader takes the values of
this relation to their keys and refuses all others. So the three notations agree, and the keys that
are read can be written as a text again, whichever notation they were read from.
-/

namespace RecordStore

/-! ## Characters of fields -/

theorem isIdentifierRest_range {c : Char} (h : isIdentifierRest c = true) :
    48 ≤ c.toNat ∧ c.toNat ≤ 122 := by
  simp only [isIdentifierRest, Char.isAlphanum, Bool.or_eq_true, isLetter_iff, isDigit_iff,
    decide_eq_true_eq] at h
  rcases h with ((⟨hlow, hhigh⟩ | ⟨hlow, hhigh⟩) | ⟨hlow, hhigh⟩) | rfl
  · exact ⟨Nat.le_trans (by decide) hlow, hhigh⟩
  · exact ⟨Nat.le_trans (by decide) hlow, Nat.le_trans hhigh (by decide)⟩
  · exact ⟨hlow, Nat.le_trans hhigh (by decide)⟩
  · decide

theorem isBlank_eq_false {c : Char} (h : 45 ≤ c.toNat ∧ c.toNat ≤ 122) : isBlank c = false := by
  simp only [isBlank, Bool.or_eq_false_iff, Bool.and_eq_false_iff, decide_eq_false_iff_not]
  omega

/-- No blank is a comma. -/
theorem Padded.comma_not_mem {text inner : List Char} (h : Padded text inner)
    (hinner : ',' ∉ inner) : ',' ∉ text := by
  obtain ⟨before, after, rfl, hbefore, hafter⟩ := h
  have hcomma : isBlank ',' = false := by decide
  simp only [List.mem_append, not_or]
  refine ⟨⟨fun hc => ?_, hinner⟩, fun hc => ?_⟩
  · exact absurd (hbefore _ hc) (by simp [hcomma])
  · exact absurd (hafter _ hc) (by simp [hcomma])

namespace SortKey

/-! ## Fields -/

/-- The segments of the path of a key are identifiers. -/
def Named (key : SortKey) : Prop := ∀ segment ∈ key.path, isIdentifier segment = true

/-- The field that a key is written as: its path with points, and a minus in front of it for
descending order. -/
def field (key : SortKey) : List Char :=
  (if key.descending then ['-'] else []) ++ OrderTerm.pathText key.path

/-- The key in the other direction. -/
def reversed (key : SortKey) : SortKey := { key with descending := !key.descending }

theorem reversed_reversed (key : SortKey) : key.reversed.reversed = key := by
  simp only [reversed, Bool.not_not]

variable {key : SortKey}

theorem Named.range (h : key.Named) {segment : String} (hsegment : segment ∈ key.path) :
    ∀ c ∈ segment.toList, 48 ≤ c.toNat ∧ c.toNat ≤ 122 := fun c hc =>
  isIdentifierRest_range (isIdentifierRest_of_isIdentifierChars (h segment hsegment) c hc)

/-- The characters of a field lie between the minus and the last letter. Blanks and commas do not. -/
theorem Named.field_range (h : key.Named) : ∀ c ∈ key.field, 45 ≤ c.toNat ∧ c.toNat ≤ 122 := by
  intro c hc
  rcases List.mem_append.mp hc with hminus | hpath
  · split at hminus
    · rw [List.mem_singleton.mp hminus]
      decide
    · cases hminus
  · rcases mem_joinWith hpath with hpoint | ⟨part, hpart, hc⟩
    · rw [List.mem_singleton.mp hpoint]
      decide
    · obtain ⟨segment, hsegment, rfl⟩ := List.mem_map.mp hpart
      have hrange := h.range hsegment c hc
      omega

/-- The path of a key starts with a character that an identifier may start with. -/
theorem Named.pathText_cons (h : key.Named) :
    ∃ c rest, OrderTerm.pathText key.path = c :: rest ∧ c ≠ '-' := by
  have hcolumn : isIdentifierChars key.column.toList = true := h key.column List.mem_cons_self
  cases hchars : key.column.toList with
  | nil =>
    rw [hchars] at hcolumn
    cases hcolumn
  | cons c more =>
    have hc : c ≠ '-' := by
      rintro rfl
      exact absurd (h.range List.mem_cons_self '-' (hchars ▸ List.mem_cons_self)) (by decide)
    cases hsubkeys : key.subkeys with
    | nil => exact ⟨c, more, by simp [OrderTerm.pathText, path, hsubkeys, joinWith, hchars], hc⟩
    | cons next others =>
      exact ⟨c, more ++ ['.'] ++ joinWith ['.'] ((next :: others).map String.toList),
        by simp [OrderTerm.pathText, path, hsubkeys, joinWith, hchars], hc⟩

theorem Named.field_ne_nil (h : key.Named) : key.field ≠ [] := by
  obtain ⟨c, rest, hpath, _⟩ := h.pathText_cons
  rw [field, hpath]
  exact List.append_ne_nil_of_right_ne_nil _ (List.cons_ne_nil c rest)

/-- A field without its minus, taken apart at its points. -/
theorem Named.splitAtEvery_pathText (h : key.Named) :
    splitAtEvery '.' (OrderTerm.pathText key.path) = key.path.map String.toList := by
  refine splitAtEvery_joinWith ?_ (List.cons_ne_nil _ _)
  intro part hpart hpoint
  obtain ⟨segment, hsegment, rfl⟩ := List.mem_map.mp hpart
  exact absurd (h.range hsegment '.' hpoint) (by decide)

theorem map_ofList_toList (path : List String) :
    (path.map String.toList).map String.ofList = path := by
  rw [List.map_map]
  exact (List.map_congr_left fun segment _ => String.ofList_toList).trans (List.map_id path)

/-- The key of a field without its minus. -/
def ofName? (descending : Bool) (name : List Char) : Option SortKey :=
  if (splitAtEvery '.' name).all isIdentifierChars then
    match (splitAtEvery '.' name).map String.ofList with
    | [] => none
    | column :: subkeys => some ⟨column, subkeys, descending⟩
  else none

theorem ofChars?_minus (name : List Char) : ofChars? ('-' :: name) = ofName? true name := rfl

theorem ofChars?_plain {chars : List Char} (h : ∀ name, chars ≠ '-' :: name) :
    ofChars? chars = ofName? false chars := by
  unfold ofChars?
  split
  next heq =>
    split at heq
    · exact absurd rfl (h _)
    · cases heq
      rfl

theorem ofName?_eq_some_iff {descending : Bool} {name : List Char} :
    ofName? descending name = some key ↔
      key.Named ∧ key.descending = descending ∧ name = OrderTerm.pathText key.path := by
  constructor
  · intro h
    unfold ofName? at h
    split at h
    next hall =>
      split at h
      · cases h
      next column subkeys hsegments =>
        cases h
        refine ⟨fun segment hsegment => ?_, rfl, ?_⟩
        · rw [path, ← hsegments] at hsegment
          obtain ⟨chars, hchars, rfl⟩ := List.mem_map.mp hsegment
          rw [isIdentifier, String.toList_ofList]
          exact List.all_eq_true.mp hall chars hchars
        · have hpath : (column :: subkeys).map String.toList = splitAtEvery '.' name := by
            rw [← hsegments, List.map_map]
            exact (List.map_congr_left fun chars _ => String.toList_ofList).trans (List.map_id _)
          rw [OrderTerm.pathText, path, hpath, joinWith_splitAtEvery]
    · cases h
  · rintro ⟨hnamed, rfl, rfl⟩
    have hall : (key.path.map String.toList).all isIdentifierChars = true := by
      rw [List.all_map]
      exact List.all_eq_true.mpr hnamed
    rw [ofName?, hnamed.splitAtEvery_pathText, if_pos hall, map_ofList_toList]
    rfl

/-- A text is read as a key exactly if it is the field of the key, and the segments of its path are
identifiers. -/
theorem ofChars?_eq_some_iff {chars : List Char} :
    ofChars? chars = some key ↔ key.Named ∧ chars = key.field := by
  by_cases hminus : ∃ name, chars = '-' :: name
  · obtain ⟨name, rfl⟩ := hminus
    rw [ofChars?_minus, ofName?_eq_some_iff]
    refine and_congr_right fun hnamed => ?_
    unfold field
    cases key.descending with
    | true => simp
    | false =>
      obtain ⟨c, rest, hpath, hc⟩ := hnamed.pathText_cons
      simp [hpath, hc.symm]
  · rw [ofChars?_plain fun name hname => hminus ⟨name, hname⟩, ofName?_eq_some_iff]
    refine and_congr_right fun _ => ?_
    unfold field
    cases key.descending with
    | true => exact ⟨nofun, fun h => absurd ⟨_, h⟩ hminus⟩
    | false => simp

/-- A part of a text is read as a key exactly if it is the field of the key with blanks around it. -/
theorem ofField_eq_ok_iff {part : List Char} :
    ofField part = .ok key ↔ key.Named ∧ Padded part key.field := by
  have hread : ofField part = .ok key ↔ ofChars? (trim part) = some key := by
    unfold ofField
    cases ofChars? (trim part) <;> simp
  rw [hread, ofChars?_eq_some_iff]
  refine and_congr_right fun hnamed => ⟨fun htrim => htrim ▸ padded_trim part, fun hpadded => ?_⟩
  exact hpadded.trim_eq (fun c hc => isBlank_eq_false (hnamed.field_range c hc)) hnamed.field_ne_nil

/-! ## Directions -/

/-- A direction is a number of value one, or minus one for descending order. -/
def IsDirection (direction : Json) (descending : Bool) : Prop :=
  ∃ n, direction = .number n ∧ n.value = if descending then -1 else 1

/-- A direction keeps a key or turns it around, and nothing else is a direction. -/
theorem direct?_eq_some_iff {given : SortKey} {direction : Json} :
    given.direct? direction = some key ↔
      IsDirection direction false ∧ key = given ∨
        IsDirection direction true ∧ key = given.reversed := by
  cases direction with
  | number n =>
    have hread : given.direct? (.number n) = if n.value = 1 then some given
        else if n.value = -1 then some given.reversed else none := by
      simp only [direct?, Number.compareValue_one, Number.compareValue_minus_one, reversed]
    have hapart : (-1 : ℚ) ≠ 1 := by decide
    simp only [hread, IsDirection, Json.number.injEq, exists_eq_left', Bool.false_eq_true, if_true,
      if_false]
    by_cases hone : n.value = 1
    · simp [hone, hapart.symm, eq_comm]
    · by_cases hminus : n.value = -1
      · simp [hminus, hapart, eq_comm]
      · simp [hone, hminus]
  | _ => simp [direct?, IsDirection]

/-- A field and a direction that stand for a key: its path with its direction, or its path with a
minus, which turns the direction around. -/
def Directed (name : String) (direction : Json) (key : SortKey) : Prop :=
  name.toList = OrderTerm.pathText key.path ∧ IsDirection direction key.descending ∨
    name.toList = '-' :: OrderTerm.pathText key.path ∧ IsDirection direction (!key.descending)

/-- The same by the field of the key and of the key in the other direction. -/
theorem directed_iff {name : String} {direction : Json} : Directed name direction key ↔
    name.toList = key.field ∧ IsDirection direction false ∨
      name.toList = key.reversed.field ∧ IsDirection direction true := by
  obtain ⟨column, subkeys, descending⟩ := key
  cases descending with
  | false => exact Iff.rfl
  | true => exact or_comm

theorem ofPair_eq_ok_iff {name : String} {direction : Json} :
    ofPair name direction = .ok key ↔ key.Named ∧ Directed name direction key := by
  have hread : ofPair name direction = .ok key ↔
      ∃ given, ofChars? name.toList = some given ∧ given.direct? direction = some key := by
    unfold ofPair
    cases ofChars? name.toList with
    | none => simp
    | some given => cases hdirect : given.direct? direction <;> simp [hdirect]
  simp only [hread, ofChars?_eq_some_iff, direct?_eq_some_iff, directed_iff]
  constructor
  · rintro ⟨given, ⟨hnamed, hname⟩, ⟨hdirection, rfl⟩ | ⟨hdirection, rfl⟩⟩
    · exact ⟨hnamed, .inl ⟨hname, hdirection⟩⟩
    · exact ⟨hnamed, .inr ⟨given.reversed_reversed.symm ▸ hname, hdirection⟩⟩
  · rintro ⟨hnamed, ⟨hname, hdirection⟩ | ⟨hname, hdirection⟩⟩
    · exact ⟨key, ⟨hnamed, hname⟩, .inl ⟨hdirection, rfl⟩⟩
    · exact ⟨key.reversed, ⟨hnamed, hname⟩, .inr ⟨hdirection, key.reversed_reversed.symm⟩⟩

theorem ofItem_eq_ok_iff {item : Json} : ofItem item = .ok key ↔ ∃ name direction,
    item = .array [.string name, direction] ∧ key.Named ∧ Directed name direction key := by
  constructor
  · intro h
    unfold ofItem at h
    split at h
    next name direction => exact ⟨name, direction, rfl, ofPair_eq_ok_iff.mp h⟩
    · cases h
    · cases h
  · rintro ⟨name, direction, rfl, hdirected⟩
    exact ofPair_eq_ok_iff.mpr hdirected

/-! ## Sort orders -/

/-- A sort order in one of its notations, and the keys that it is written for: a text of fields with
commas between them and blanks around them, an object of fields and directions, or a list of pairs
of them. -/
inductive Writes : Json → List SortKey → Prop
  | fields {text : String} {parts : List (List Char)} {keys : List SortKey}
      (htext : text.toList = joinWith [','] parts) (hne : parts ≠ [])
      (h : List.Forall₂ (fun part key => key.Named ∧ Padded part key.field) parts keys) :
      Writes (.string text) keys
  | members {members : List (String × Json)} {keys : List SortKey}
      (h : List.Forall₂ (fun (name, direction) key => key.Named ∧ Directed name direction key)
        members keys) : Writes (.object members) keys
  | pairs {items : List Json} {keys : List SortKey}
      (h : List.Forall₂ (fun item key => ∃ name direction,
        item = .array [.string name, direction] ∧ key.Named ∧ Directed name direction key)
        items keys) : Writes (.array items) keys

/-- The parts of a text of fields are what stands between its commas. -/
theorem splitAtEvery_fields {parts : List (List Char)} {keys : List SortKey} (hne : parts ≠ [])
    (h : List.Forall₂ (fun part key => key.Named ∧ Padded part key.field) parts keys) :
    splitAtEvery ',' (joinWith [','] parts) = parts := by
  refine splitAtEvery_joinWith (forall_mem_left h fun part key ⟨hnamed, hpadded⟩ => ?_) hne
  refine hpadded.comma_not_mem fun hcomma => ?_
  exact absurd (hnamed.field_range ',' hcomma) (by decide)

/-- The reader takes the values that sort orders are written as to their keys, and it refuses all
others. -/
theorem ofJson_eq_ok_iff {sort : Json} {keys : List SortKey} :
    ofJson sort = .ok keys ↔ Writes sort keys := by
  constructor
  · intro h
    unfold ofJson at h
    split at h
    next text =>
      simp only [mapM_eq_ok_iff, ofField_eq_ok_iff] at h
      exact .fields (joinWith_splitAtEvery _).symm (splitAtEvery_ne_nil _) h
    next members =>
      simp only [mapM_eq_ok_iff, ofPair_eq_ok_iff] at h
      exact .members h
    next items =>
      simp only [mapM_eq_ok_iff, ofItem_eq_ok_iff] at h
      exact .pairs h
    · cases h
  · rintro (⟨htext, hne, h⟩ | h | h)
    · rw [ofJson, htext, splitAtEvery_fields hne h]
      simpa only [mapM_eq_ok_iff, ofField_eq_ok_iff] using h
    · simpa only [ofJson, mapM_eq_ok_iff, ofPair_eq_ok_iff] using h
    · simpa only [ofJson, mapM_eq_ok_iff, ofItem_eq_ok_iff] using h

theorem Writes.named {sort : Json} {keys : List SortKey} (h : Writes sort keys) :
    ∀ key ∈ keys, key.Named := by
  cases h with
  | fields _ _ h => exact forall_mem_right h fun _ _ h => h.1
  | members h => exact forall_mem_right h fun _ _ h => h.1
  | pairs h => exact forall_mem_right h fun _ _ ⟨_, _, _, h⟩ => h.1

/-! ## Keys written as a text -/

/-- The keys of an order as a text: their fields with commas between them. -/
def textOf (keys : List SortKey) : String := String.ofList (joinWith [','] (keys.map field))

/-- The text of the keys of an order is read as these keys. Without keys it is the empty text. -/
theorem sortKeys_textOf {keys : List SortKey} (h : ∀ key ∈ keys, key.Named) {listing : Listing}
    (hsort : listing.sort = some (.string (textOf keys))) : listing.sortKeys = .ok keys := by
  cases keys with
  | nil => simp [Listing.sortKeys, hsort, textOf, joinWith]
  | cons key rest =>
    have hfields : List.Forall₂ (fun part key => key.Named ∧ Padded part key.field)
        ((key :: rest).map field) (key :: rest) := by
      rw [List.forall₂_map_left_iff, List.forall₂_same]
      exact fun key hkey => ⟨h key hkey, .refl _⟩
    have hwrites : Writes (.string (textOf (key :: rest))) (key :: rest) :=
      .fields String.toList_ofList (List.cons_ne_nil _ _) hfields
    have hread := ofJson_eq_ok_iff.mpr hwrites
    have hne : textOf (key :: rest) ≠ "" := by
      intro hempty
      rw [hempty] at hread
      cases hread
    simp only [Listing.sortKeys, hsort, Json.string.injEq, if_neg hne, hread]

/-! ## The notations -/

/-- Fields with their directions as a list of pairs. -/
def pairsOf (members : List (String × Json)) : List Json :=
  members.map fun (name, direction) => .array [.string name, direction]

/-- The notations of a sort order agree, and each of them can be written as a text again. Keys with
identifiers in their paths are what their fields are read as, with any blanks around them, and what
their paths with their directions are read as, in a list of pairs or in an object; a minus in front of
a path turns the direction around, so that minus one makes the order ascending. The keys of every
order that is accepted have identifiers in their paths, and their text stands for them in a listing. A
text is accepted exactly if each of its parts is a field with blanks around it. -/
theorem notations_agree :
    (∀ keys : List SortKey, keys ≠ [] → (∀ key ∈ keys, key.Named) →
      (∀ (text : String) (parts : List (List Char)), text.toList = joinWith [','] parts →
        List.Forall₂ (fun part key => Padded part key.field) parts keys →
        ofJson (.string text) = .ok keys) ∧
      ∀ members : List (String × Json),
        List.Forall₂ (fun (name, direction) key => Directed name direction key) members keys →
        ofJson (.array (pairsOf members)) = .ok keys ∧ ofJson (.object members) = .ok keys) ∧
    (∀ (sort : Json) (keys : List SortKey), ofJson sort = .ok keys →
      (∀ key ∈ keys, key.path ≠ [] ∧ ∀ segment ∈ key.path, isIdentifier segment = true) ∧
      ∀ listing : Listing, listing.sort = some (.string (textOf keys)) →
        listing.sortKeys = .ok keys) ∧
    ∀ text : String, (∃ keys, ofJson (.string text) = .ok keys) ↔
      ∀ part ∈ text.toList.splitOn ',', ∃ key : SortKey, key.Named ∧ Padded part key.field := by
  refine ⟨fun keys hne hnamed => ⟨fun text parts htext h => ?_, fun members h => ⟨?_, ?_⟩⟩,
    fun sort keys hread => ?_, fun text => ?_⟩
  · have hparts : parts ≠ [] := by
      rintro rfl
      exact hne (List.forall₂_nil_left_iff.mp h)
    exact ofJson_eq_ok_iff.mpr (.fields htext hparts (forall₂_and_right hnamed h))
  · refine ofJson_eq_ok_iff.mpr (.pairs ?_)
    rw [pairsOf, List.forall₂_map_left_iff]
    exact (forall₂_and_right hnamed h).imp fun member key h => ⟨member.1, member.2, rfl, h⟩
  · exact ofJson_eq_ok_iff.mpr (.members (forall₂_and_right hnamed h))
  · have hnamed := (ofJson_eq_ok_iff.mp hread).named
    exact ⟨fun key hkey => ⟨List.cons_ne_nil _ _, hnamed key hkey⟩,
      fun listing hsort => sortKeys_textOf hnamed hsort⟩
  · rw [← splitAtEvery_eq_splitOn]
    simp only [← ofField_eq_ok_iff]
    exact ⟨fun ⟨keys, h⟩ part hpart => (exists_of_mapM h hpart).imp fun _ h => h.2, mapM_isOk⟩

/-- Two keys, the first one descending. -/
def tagsAndTitle : List SortKey := [⟨"tags", ["of"], true⟩, ⟨"title", [], false⟩]

/-- The members that stand for the two keys, one of them with a minus and the direction minus one. -/
def tagsAndTitleMembers : List (String × Json) :=
  [("tags.of", .number (.integer (-1) (by decide))),
    ("-title", .number (.integer (-1) (by decide)))]

theorem tags_and_title : ofJson (.string " -tags.of,title ") = .ok tagsAndTitle ∧
    ofJson (.array (pairsOf tagsAndTitleMembers)) = .ok tagsAndTitle ∧
    ofJson (.object tagsAndTitleMembers) = .ok tagsAndTitle ∧
    Listing.sortKeys ⟨none, some (.string "-tags.of,title"), none, none⟩ = .ok tagsAndTitle ∧
    ¬ ∃ keys, ofJson (.string "title,") = .ok keys := by
  obtain ⟨hwritten, hread, haccepted⟩ := notations_agree
  have hnamed : ∀ key ∈ tagsAndTitle, key.Named := by
    simp only [tagsAndTitle, Named, path, List.forall_mem_cons]
    decide
  obtain ⟨hfields, hmembers⟩ := hwritten tagsAndTitle (List.cons_ne_nil _ _) hnamed
  have htext : ofJson (.string " -tags.of,title ") = .ok tagsAndTitle := by
    refine hfields _ [" -tags.of".toList, "title ".toList] rfl (.cons ?_ (.cons ?_ .nil))
    · exact ⟨[' '], [], rfl, List.forall_mem_singleton.mpr rfl, nofun⟩
    · exact ⟨[], [' '], rfl, nofun, List.forall_mem_singleton.mpr rfl⟩
  have hdirected : List.Forall₂ (fun (name, direction) key => Directed name direction key)
      tagsAndTitleMembers tagsAndTitle :=
    .cons (.inl ⟨rfl, _, rfl, rfl⟩) (.cons (.inr ⟨rfl, _, rfl, rfl⟩) .nil)
  refine ⟨htext, (hmembers _ hdirected).1, (hmembers _ hdirected).2, (hread _ _ htext).2 _ rfl, ?_⟩
  intro hkeys
  obtain ⟨key, hkey, before, after, hempty, _, _⟩ := (haccepted "title,").mp hkeys [] (by decide)
  have hfield : key.field = [] :=
    (List.append_eq_nil_iff.mp (List.append_eq_nil_iff.mp hempty.symm).1).2
  exact hkey.field_ne_nil hfield

end SortKey

end RecordStore
