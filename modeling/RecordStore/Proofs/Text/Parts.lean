import Mathlib.Data.List.TakeWhile
import RecordStore.Text.Blank
import RecordStore.Text.Joined

/-!
# Texts taken apart

Splitting a text at a separator undoes joining, if no part holds the separator, and joining always
undoes splitting. Trimming takes away the blanks around a text and nothing else.
-/

namespace RecordStore

/-! ## Parts -/

theorem joinWith_eq_intercalate {α : Type} (separator : List α) (parts : List (List α)) :
    joinWith separator parts = separator.intercalate parts := by
  induction parts with
  | nil => rfl
  | cons part rest ih =>
    cases rest with
    | nil => rw [joinWith, List.intercalate_singleton]
    | cons next more => rw [joinWith, ih, List.intercalate_cons_cons]

theorem flatMap_joinWith {α β : Type} (f : α → List β) (separator : List α) (parts : List (List α)) :
    (joinWith separator parts).flatMap f =
      joinWith (separator.flatMap f) (parts.map (List.flatMap f)) := by
  induction parts with
  | nil => rfl
  | cons part rest ih =>
    cases rest with
    | nil => rfl
    | cons next more =>
      rw [List.map_cons] at ih
      simp only [joinWith, List.map_cons, List.flatMap_append, ih]

theorem filterMap_joinWith {α β : Type} {f : α → Option β} {separator : List α}
    (hs : separator.filterMap f = []) (parts : List (List α)) :
    (joinWith separator parts).filterMap f = parts.flatMap (List.filterMap f) := by
  induction parts with
  | nil => rfl
  | cons first rest ih =>
    cases rest with
    | nil => simp [joinWith]
    | cons next more =>
      rw [joinWith, List.filterMap_append, List.filterMap_append, hs, List.append_nil, ih,
        ← List.flatMap_cons]

variable {separator : Char}

theorem splitAtEvery_eq_splitOn (text : List Char) :
    splitAtEvery separator text = text.splitOn separator := by
  induction text with
  | nil => rw [splitAtEvery, List.splitOn_nil]
  | cons c rest ih =>
    rw [splitAtEvery, List.splitOn_cons_eq_if_modifyHead, ih]
    simp only [beq_iff_eq]
    split
    · rfl
    · cases hparts : rest.splitOn separator with
      | nil => exact absurd hparts (List.splitOn_ne_nil separator rest)
      | cons part parts => rfl

theorem splitAtEvery_ne_nil (text : List Char) : splitAtEvery separator text ≠ [] := by
  rw [splitAtEvery_eq_splitOn]
  exact List.splitOn_ne_nil separator text

theorem splitAtEvery_joinWith {parts : List (List Char)} (h : ∀ part ∈ parts, separator ∉ part)
    (hne : parts ≠ []) : splitAtEvery separator (joinWith [separator] parts) = parts := by
  rw [splitAtEvery_eq_splitOn, joinWith_eq_intercalate]
  exact List.splitOn_intercalate separator h hne

theorem joinWith_splitAtEvery (text : List Char) :
    joinWith [separator] (splitAtEvery separator text) = text := by
  rw [splitAtEvery_eq_splitOn, joinWith_eq_intercalate]
  exact List.intercalate_splitOn separator

/-! ## Blanks around a text -/

/-- A text is another one with blanks around it. -/
def Padded (text inner : List Char) : Prop := ∃ before after, text = before ++ inner ++ after ∧
  (∀ c ∈ before, isBlank c = true) ∧ ∀ c ∈ after, isBlank c = true

theorem Padded.refl (text : List Char) : Padded text text :=
  ⟨[], [], by rw [List.nil_append, List.append_nil], nofun, nofun⟩

theorem trimStart_blanks {before rest : List Char} (h : ∀ c ∈ before, isBlank c = true) :
    trimStart (before ++ rest) = trimStart rest := List.dropWhile_append_of_pos h

theorem trimStart_inner {inner rest : List Char} (hinner : ∀ c ∈ inner, isBlank c = false)
    (hne : inner ≠ []) : trimStart (inner ++ rest) = inner ++ rest := by
  obtain ⟨c, more, rfl⟩ := List.exists_cons_of_ne_nil hne
  have hc : ¬ isBlank c = true := by simp [hinner c List.mem_cons_self]
  exact List.dropWhile_cons_of_neg hc

/-- Trimming a text without blanks takes the blanks away that are put around it. -/
theorem Padded.trim_eq {text inner : List Char} (h : Padded text inner)
    (hinner : ∀ c ∈ inner, isBlank c = false) (hne : inner ≠ []) : trim text = inner := by
  obtain ⟨before, after, rfl, hbefore, hafter⟩ := h
  have hend : trimStart (after.reverse ++ inner.reverse) = inner.reverse := by
    rw [trimStart_blanks (by simpa using hafter), ← List.append_nil inner.reverse]
    exact trimStart_inner (by simpa using hinner) (by simpa using hne)
  rw [trim, List.append_assoc, trimStart_blanks hbefore, trimStart_inner hinner hne,
    List.reverse_append, hend, List.reverse_reverse]

/-- What stands before a text without the blanks at its start are blanks. -/
theorem exists_append_trimStart (text : List Char) :
    ∃ before, text = before ++ trimStart text ∧ ∀ c ∈ before, isBlank c = true :=
  ⟨text.takeWhile isBlank, List.takeWhile_append_dropWhile.symm, fun _ => List.mem_takeWhile_imp⟩

theorem padded_trim (text : List Char) : Padded text (trim text) := by
  obtain ⟨before, hstart, hbefore⟩ := exists_append_trimStart text
  obtain ⟨after, hend, hafter⟩ := exists_append_trimStart (trimStart text).reverse
  refine ⟨before, after.reverse, ?_, hbefore, by simpa using hafter⟩
  calc text = before ++ (trimStart text).reverse.reverse := by rw [List.reverse_reverse, ← hstart]
    _ = before ++ (after ++ trimStart (trimStart text).reverse).reverse := by rw [← hend]
    _ = before ++ trim text ++ after.reverse := by
      rw [List.reverse_append, ← List.append_assoc, trim]

end RecordStore
