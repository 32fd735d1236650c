import RecordStore.Proofs.Json.ReadBack

/-!
# Values that are read

The reader goes no deeper than it is told to, and of the members of an object with the same key it
keeps one. With the reading back of texts this says which values come back from their text: the
proper ones.
-/

namespace RecordStore.Json

variable {reading : FloatReading}

theorem within_array {limit : Nat} {items : List Json} (h : ∀ item ∈ items, Within limit item) :
    Within (limit + 1) (.array items) := by
  suffices hitems : itemsDepth items ≤ limit ∧ itemsDistinct items = true from
    ⟨Nat.succ_le_succ hitems.1, hitems.2⟩
  induction items with
  | nil => exact ⟨Nat.zero_le _, rfl⟩
  | cons item rest ih =>
    obtain ⟨hdepth, hkeys⟩ := h item List.mem_cons_self
    obtain ⟨hdepths, hdistinct⟩ := ih fun other hother => h other (List.mem_cons_of_mem _ hother)
    rw [itemsDepth, itemsDistinct, hkeys, hdistinct]
    exact ⟨Nat.max_le.mpr ⟨hdepth, hdepths⟩, rfl⟩

theorem within_ofMembers {limit : Nat} {members : List (String × Json)}
    (h : ∀ member ∈ members, Within limit member.2) : Within (limit + 1) (ofMembers members) := by
  have hset : ∀ member ∈ setMembers [] members, Within limit member.2 := fun member hmember =>
    h member ((mem_setMembers hmember).resolve_left List.not_mem_nil)
  have hkeys : DistinctKeys (setMembers [] members) := distinctKeys_setMembers List.Pairwise.nil members
  suffices hmembers : membersDepth (setMembers [] members) ≤ limit ∧
      membersDistinct (setMembers [] members) = true by
    refine ⟨Nat.succ_le_succ hmembers.1, ?_⟩
    rw [ofMembers, keysDistinct, hmembers.2, decide_eq_true hkeys]
    rfl
  clear hkeys
  generalize setMembers [] members = all at hset
  induction all with
  | nil => exact ⟨Nat.zero_le _, rfl⟩
  | cons member rest ih =>
    obtain ⟨hdepth, hkeys⟩ := hset member List.mem_cons_self
    obtain ⟨hdepths, hdistinct⟩ := ih fun other hother => hset other (List.mem_cons_of_mem _ hother)
    rw [membersDepth, membersDistinct, hkeys, hdistinct]
    exact ⟨Nat.max_le.mpr ⟨hdepth, hdepths⟩, rfl⟩

theorem readWord_eq_ok {word value : Json} {expected text rest : List Char}
    (h : readWord word expected text = .ok (value, rest)) : value = word := by
  induction expected generalizing text with
  | nil =>
    cases text <;> cases h <;> rfl
  | cons e expected ih =>
    cases text with
    | nil => cases h
    | cons c text =>
      rw [readWord] at h
      split at h
      · exact ih h
      · cases h

/-- What is read at once is neither an array nor an object. -/
theorem readScalar_within {text rest : List Char} {value : Json}
    (h : readScalar reading text = .ok (value, rest)) (limit : Nat) : Within limit value := by
  cases text with
  | nil => cases h
  | cons c text =>
    rw [readScalar] at h
    split_ifs at h
    · rw [readWord_eq_ok h]
      exact ⟨Nat.zero_le _, rfl⟩
    · rw [readWord_eq_ok h]
      exact ⟨Nat.zero_le _, rfl⟩
    · rw [readWord_eq_ok h]
      exact ⟨Nat.zero_le _, rfl⟩
    · simp only [bind_eq_ok, Except.ok.injEq, Prod.mk.injEq] at h
      obtain ⟨⟨s, _⟩, _, rfl, _⟩ := h
      exact ⟨Nat.zero_le _, rfl⟩
    · simp only [bind_eq_ok, Except.ok.injEq, Prod.mk.injEq] at h
      obtain ⟨⟨n, _⟩, _, rfl, _⟩ := h
      exact ⟨Nat.zero_le _, rfl⟩
    · simp only [bind_eq_ok, Except.ok.injEq, Prod.mk.injEq] at h
      obtain ⟨⟨n, _⟩, _, rfl, _⟩ := h
      exact ⟨Nat.zero_le _, rfl⟩
    · cases h

/-- What the reading functions give when they succeed, for any one supply of fuel. -/
structure ReadsWithin (reading : FloatReading) (fuel : Nat) : Prop where
  value : ∀ {limit text value rest}, readValue reading fuel limit text = .ok (value, rest) →
    Within limit value
  items : ∀ {limit text items rest}, readItems reading fuel limit text = .ok (items, rest) →
    ∀ item ∈ items, Within limit item
  moreItems : ∀ {limit text items rest}, readMoreItems reading fuel limit text = .ok (items, rest) →
    ∀ item ∈ items, Within limit item
  members : ∀ {limit text members rest}, readMembers reading fuel limit text = .ok (members, rest) →
    ∀ member ∈ members, Within limit member.2
  moreMembers : ∀ {limit text members rest},
    readMoreMembers reading fuel limit text = .ok (members, rest) →
    ∀ member ∈ members, Within limit member.2

namespace ReadsWithin

variable {fuel limit : Nat} {text rest : List Char} (ih : ReadsWithin reading fuel)
include ih

theorem readValue_succ {value : Json}
    (h : readValue reading (fuel + 1) limit text = .ok (value, rest)) :
    Within limit value := by
  unfold readValue at h
  split at h
  · split at h
    · cases h
    · simp only [bind_eq_ok, Except.ok.injEq, Prod.mk.injEq] at h
      obtain ⟨⟨items, _⟩, hitems, rfl, _⟩ := h
      exact within_array (ih.items hitems)
  · split at h
    · cases h
    · simp only [bind_eq_ok, Except.ok.injEq, Prod.mk.injEq] at h
      obtain ⟨⟨members, _⟩, hmembers, rfl, _⟩ := h
      exact within_ofMembers (ih.members hmembers)
  · exact readScalar_within h limit

theorem readItems_succ {items : List Json}
    (h : readItems reading (fuel + 1) limit text = .ok (items, rest)) :
    ∀ item ∈ items, Within limit item := by
  unfold readItems at h
  split at h
  · cases h
  · cases h
    exact fun _ hitem => absurd hitem List.not_mem_nil
  · simp only [bind_eq_ok, Except.ok.injEq, Prod.mk.injEq] at h
    obtain ⟨⟨item, _⟩, hitem, ⟨items, _⟩, hitems, rfl, _⟩ := h
    exact List.forall_mem_cons.mpr ⟨ih.value hitem, ih.moreItems hitems⟩

theorem readMoreItems_succ {items : List Json}
    (h : readMoreItems reading (fuel + 1) limit text = .ok (items, rest)) :
    ∀ item ∈ items, Within limit item := by
  unfold readMoreItems at h
  split at h
  · cases h
  · cases h
    exact fun _ hitem => absurd hitem List.not_mem_nil
  · split at h
    · cases h
    · simp only [bind_eq_ok, Except.ok.injEq, Prod.mk.injEq] at h
      obtain ⟨⟨item, _⟩, hitem, ⟨items, _⟩, hitems, rfl, _⟩ := h
      exact List.forall_mem_cons.mpr ⟨ih.value hitem, ih.moreItems hitems⟩
  · cases h

theorem readMembers_succ {members : List (String × Json)}
    (h : readMembers reading (fuel + 1) limit text = .ok (members, rest)) :
    ∀ member ∈ members, Within limit member.2 := by
  unfold readMembers at h
  split at h
  · cases h
  · cases h
    exact fun _ hmember => absurd hmember List.not_mem_nil
  · simp only [bind_eq_ok, Except.ok.injEq, Prod.mk.injEq] at h
    obtain ⟨⟨key, _⟩, _, ⟨value, _⟩, hvalue, ⟨members, _⟩, hmembers, rfl, _⟩ := h
    exact List.forall_mem_cons.mpr ⟨ih.value hvalue, ih.moreMembers hmembers⟩
  · cases h

theorem readMoreMembers_succ {members : List (String × Json)}
    (h : readMoreMembers reading (fuel + 1) limit text = .ok (members, rest)) :
    ∀ member ∈ members, Within limit member.2 := by
  unfold readMoreMembers at h
  split at h
  · cases h
  · cases h
    exact fun _ hmember => absurd hmember List.not_mem_nil
  · split at h
    · cases h
    · cases h
    · simp only [bind_eq_ok, Except.ok.injEq, Prod.mk.injEq] at h
      obtain ⟨⟨key, _⟩, _, ⟨value, _⟩, hvalue, ⟨members, _⟩, hmembers, rfl, _⟩ := h
      exact List.forall_mem_cons.mpr ⟨ih.value hvalue, ih.moreMembers hmembers⟩
    · cases h
  · cases h

end ReadsWithin

theorem readsWithin (reading : FloatReading) (fuel : Nat) : ReadsWithin reading fuel := by
  induction fuel with
  | zero =>
    constructor <;> intro limit text _ _ h
    · rw [readValue] at h
      cases h
    · rw [readItems] at h
      cases h
    · rw [readMoreItems] at h
      cases h
    · rw [readMembers] at h
      cases h
    · rw [readMoreMembers] at h
      cases h
  | succ fuel ih =>
    exact ⟨ih.readValue_succ, ih.readItems_succ, ih.readMoreItems_succ, ih.readMembers_succ,
      ih.readMoreMembers_succ⟩

theorem readEnd_eq_ok {α : Type} {found value : α} {rest : List Char}
    (h : readEnd found rest = .ok value) : found = value := by
  unfold readEnd at h
  split at h
  · exact Except.ok.inj h
  · cases h

theorem readDocument_within {text : List Char} {value : Json}
    (h : readDocument reading text = .ok value) : value.Within 127 := by
  simp only [readDocument, bind_eq_ok] at h
  obtain ⟨⟨found, rest⟩, hfound, hend⟩ := h
  obtain rfl := readEnd_eq_ok hend
  exact (readsWithin reading _).value hfound

/-- The text of an object does not start with a hyphen, which is the sign of a number. -/
theorem head?_of_read {text : String} {members : Record} (h : Json.read text = .ok (.object members)) :
    text.toList.head? ≠ some '-' := by
  intro hhead
  obtain ⟨rest, htext⟩ := List.head?_eq_some_iff.mp hhead
  have hdocument : readDocument wordDouble text.toList = .ok (.object members) := mapError_eq_ok.mp h
  rw [htext, readDocument, bind_eq_ok] at hdocument
  obtain ⟨⟨found, more⟩, hfound, hend⟩ := hdocument
  obtain rfl := readEnd_eq_ok hend
  rw [readingFuel, readValue, Starts.skipBlanks (.inl (by unfold StartsScalar; decide))] at hfound
  obtain ⟨number, _, heq⟩ : ∃ number, readNumber wordDouble true rest = .ok number ∧
      Except.ok (Json.number number.1, number.2) = Except.ok (Json.object members, more) :=
    bind_eq_ok.mp hfound
  cases heq

/-- The values that come back from their text are the proper ones. -/
theorem read_text_iff {value : Json} : Json.read value.text = .ok value ↔ value.Proper := by
  refine ⟨fun h => ?_, read_text⟩
  rw [Json.text] at h
  have hdocument : readDocument wordDouble (String.ofList value.chars).toList = .ok value :=
    mapError_eq_ok.mp h
  rw [String.toList_ofList] at hdocument
  obtain ⟨hdepth, hkeys⟩ := readDocument_within hdocument
  refine ⟨Nat.lt_succ_of_le hdepth, hkeys, ?_⟩
  rw [← readDocument_chars (Nat.lt_succ_of_le hdepth) hkeys, hdocument]
  rfl

end RecordStore.Json
