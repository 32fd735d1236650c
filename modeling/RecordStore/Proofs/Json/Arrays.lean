import RecordStore.Proofs.Json.Proper

/-!
# Texts that hold an array

A text whose value is an array is read as the items of that array where an array is asked for. The two
readings differ in the fuel that is left for the items: what was read with some fuel is read with more.
-/

namespace RecordStore.Json

/-- What the reading functions read with some fuel, they read with one step more. -/
structure ReadsAgain (reading : FloatReading) (fuel : Nat) : Prop where
  value : ∀ {limit text result}, readValue reading fuel limit text = .ok result →
    readValue reading (fuel + 1) limit text = .ok result
  items : ∀ {limit text result}, readItems reading fuel limit text = .ok result →
    readItems reading (fuel + 1) limit text = .ok result
  moreItems : ∀ {limit text result}, readMoreItems reading fuel limit text = .ok result →
    readMoreItems reading (fuel + 1) limit text = .ok result
  members : ∀ {limit text result}, readMembers reading fuel limit text = .ok result →
    readMembers reading (fuel + 1) limit text = .ok result
  moreMembers : ∀ {limit text result}, readMoreMembers reading fuel limit text = .ok result →
    readMoreMembers reading (fuel + 1) limit text = .ok result

namespace ReadsAgain

variable {reading : FloatReading} {fuel limit : Nat} {text : List Char} (ih : ReadsAgain reading fuel)
include ih

theorem readValue_succ {result : Json × List Char}
    (h : readValue reading (fuel + 1) limit text = .ok result) :
    readValue reading (fuel + 2) limit text = .ok result := by
  rw [readValue] at h ⊢
  split at h
  · split at h
    · exact h
    · exact bind_imp (fun _ => ih.items) (fun _ => id) h
  · split at h
    · exact h
    · exact bind_imp (fun _ => ih.members) (fun _ => id) h
  · exact h

theorem readItems_succ {result : List Json × List Char}
    (h : readItems reading (fuel + 1) limit text = .ok result) :
    readItems reading (fuel + 2) limit text = .ok result := by
  rw [readItems] at h ⊢
  split at h
  · exact h
  · exact h
  · exact bind_imp (fun _ => ih.value) (fun _ => bind_imp (fun _ => ih.moreItems) fun _ => id) h

theorem readMoreItems_succ {result : List Json × List Char}
    (h : readMoreItems reading (fuel + 1) limit text = .ok result) :
    readMoreItems reading (fuel + 2) limit text = .ok result := by
  rw [readMoreItems] at h ⊢
  split at h
  · exact h
  · exact h
  · split at h
    · exact h
    · exact bind_imp (fun _ => ih.value) (fun _ => bind_imp (fun _ => ih.moreItems) fun _ => id) h
  · exact h

theorem readMembers_succ {result : List (String × Json) × List Char}
    (h : readMembers reading (fuel + 1) limit text = .ok result) :
    readMembers reading (fuel + 2) limit text = .ok result := by
  rw [readMembers] at h ⊢
  split at h
  · exact h
  · exact h
  · exact bind_imp (fun _ => id) (fun _ => bind_imp (fun _ => ih.value) fun _ =>
      bind_imp (fun _ => ih.moreMembers) fun _ => id) h
  · exact h

theorem readMoreMembers_succ {result : List (String × Json) × List Char}
    (h : readMoreMembers reading (fuel + 1) limit text = .ok result) :
    readMoreMembers reading (fuel + 2) limit text = .ok result := by
  rw [readMoreMembers] at h ⊢
  split at h
  · exact h
  · exact h
  · split at h
    · exact h
    · exact h
    · exact bind_imp (fun _ => id) (fun _ => bind_imp (fun _ => ih.value) fun _ =>
        bind_imp (fun _ => ih.moreMembers) fun _ => id) h
    · exact h
  · exact h

end ReadsAgain

theorem readsAgain (reading : FloatReading) (fuel : Nat) : ReadsAgain reading fuel := by
  induction fuel with
  | zero =>
    constructor <;> intro limit text _ h
    · rw [readValue] at h
      cases h
    · rw [readItems] at h
      cases h
    · rw [readMoreItems] at h
      cases h
    · rw [readMembers] at h
      cases h
    · rw [readMoreMembers] at h
      cases h
  | succ fuel ih =>
    exact ⟨ih.readValue_succ, ih.readItems_succ, ih.readMoreItems_succ, ih.readMembers_succ,
      ih.readMoreMembers_succ⟩

/-- Whether a text ends after a value does not depend on the value. -/
theorem readEnd_of_ok {α β : Type} {found value : α} {rest : List Char}
    (h : readEnd found rest = .ok value) (other : β) : readEnd other rest = .ok other := by
  unfold readEnd at h ⊢
  split at h
  · rfl
  · cases h

/-- A text that holds an array is read as the items of that array. -/
theorem readArray_of_read {text : String} {items : List Json}
    (h : Json.read text = .ok (.array items)) : Json.readArray text = .ok items := by
  have hdocument : readDocument wordDouble text.toList = .ok (.array items) := mapError_eq_ok.mp h
  apply mapError_eq_ok.mpr
  obtain ⟨⟨value, rest⟩, hvalue, hend⟩ := bind_eq_ok.mp hdocument
  obtain rfl := readEnd_eq_ok hend
  unfold readArrayDocument
  rw [readingFuel, readValue] at hvalue
  split at hvalue
  · obtain ⟨⟨found, more⟩, hfound, heq⟩ := bind_eq_ok.mp hvalue
    cases heq
    exact bind_eq_ok.mpr ⟨(items, rest), (readsAgain _ _).items hfound, readEnd_of_ok hend items⟩
  · obtain ⟨⟨members, more⟩, _, heq⟩ := bind_eq_ok.mp hvalue
    cases heq
  · have hdepth := (readScalar_within hvalue 0).1
    rw [depth] at hdepth
    omega

end RecordStore.Json
