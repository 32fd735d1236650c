import RecordStore.Text.Lowercase

/-!
# Lower case is final

The small letter of a capital letter is no capital letter itself, so a text in lower case stays as it
is when it is lowered again, and so does every part of it.
-/

namespace RecordStore

namespace CapitalRun

/-- No small letter of the first run is a capital letter of the second. -/
def misses (r other : CapitalRun) : Bool :=
  Nat.blt (r.last + r.offset).toNat other.first || Nat.blt other.last (r.first + r.offset).toNat ||
    (List.range (r.last + 1 - r.first)).all fun k =>
      k % r.step != 0 || ((r.first + k + r.offset).toNat - other.first) % other.step != 0

theorem misses_capitalRuns :
    (capitalRuns.all fun r => capitalRuns.all fun other => r.misses other) = true := by
  decide +kernel

/-- The small letters of a run are characters, and beyond ASCII but for the `k`, which is also the
small letter of the Kelvin sign. -/
theorem bounds_capitalRuns : ∀ r ∈ capitalRuns,
    ((r.last + r.offset).toNat < 0xD800 ∨ 0xE000 ≤ (r.first + r.offset).toNat) ∧
    (r.last + r.offset).toNat < 0x110000 ∧
    (0x80 ≤ (r.first + r.offset).toNat ∨
      (r.first + r.offset).toNat = 0x6B ∧ (r.last + r.offset).toNat = 0x6B) ∧
    ((r.last + r.offset).toNat < 0x130 ∨ 0x130 < (r.first + r.offset).toNat) := by
  decide +kernel

variable {r other : CapitalRun} {n : Nat}

theorem not_capital (hr : r ∈ capitalRuns) (hother : other ∈ capitalRuns) (hfirst : r.first ≤ n)
    (hlast : n ≤ r.last) (hstep : (n - r.first) % r.step = 0)
    (hin : other.first ≤ (n + r.offset).toNat ∧ (n + r.offset).toNat ≤ other.last) :
    ((n + r.offset).toNat - other.first) % other.step ≠ 0 := by
  have hmiss : r.misses other = true :=
    List.all_eq_true.mp (List.all_eq_true.mp misses_capitalRuns r hr) other hother
  rw [misses, Bool.or_eq_true, Bool.or_eq_true, List.all_eq_true] at hmiss
  rcases hmiss with (h | h) | h
  · have := Nat.blt_eq.mp h
    omega
  · have := Nat.blt_eq.mp h
    omega
  · have hk := h (n - r.first) (List.mem_range.mpr (by omega))
    have hn : (r.first : Int) + (n - r.first : Nat) + r.offset = n + r.offset := by omega
    simpa [hstep, hn] using hk

end CapitalRun

/-- The small letter of a capital letter of a run. -/
theorem lowerChar_of_run {r : CapitalRun} {n : Nat} (hr : r ∈ capitalRuns) (hfirst : r.first ≤ n)
    (hlast : n ≤ r.last) (hstep : (n - r.first) % r.step = 0) :
    lowerChar (Char.ofNat (n + r.offset).toNat) = [Char.ofNat (n + r.offset).toNat] := by
  obtain ⟨hsurrogates, hlimit, hascii, hdotted⟩ := CapitalRun.bounds_capitalRuns r hr
  have hvalid : (n + r.offset).toNat.isValidChar := by
    rcases hsurrogates with h | h
    · exact .inl (by omega)
    · exact .inr ⟨by omega, by omega⟩
  have hcode : (Char.ofNat (n + r.offset).toNat).toNat = (n + r.offset).toNat := by
    rw [Char.ofNat, dif_pos hvalid]
    rfl
  unfold lowerChar
  simp only [hcode]
  split
  next hsmall =>
    have hk : (n + r.offset).toNat = 0x6B := by omega
    rw [hk]
    rfl
  next hlarge =>
    rw [if_neg (by omega)]
    split
    next other hfound =>
      have hin := List.find?_some hfound
      rw [Bool.and_eq_true, decide_eq_true_eq, decide_eq_true_eq] at hin
      rw [if_neg (CapitalRun.not_capital hr (List.mem_of_find?_eq_some hfound) hfirst hlast hstep hin)]
    next => rfl

theorem lowerChar_ascii : ∀ n < 0x80, lowerChar (Char.ofNat n).toLower = [(Char.ofNat n).toLower] := by
  decide +kernel

/-- The small letters of a character are their own small letters. -/
theorem lowerChar_of_mem {c d : Char} (h : d ∈ lowerChar c) : lowerChar d = [d] := by
  by_cases hself : lowerChar c = [c]
  · rw [hself, List.mem_singleton] at h
    exact h ▸ hself
  · unfold lowerChar at h hself
    simp only at h hself
    split at h
    next hsmall =>
      rw [List.mem_singleton.mp h, ← Char.ofNat_toNat c]
      exact lowerChar_ascii c.toNat hsmall
    next hlarge =>
      rw [if_neg hlarge] at hself
      split at h
      next =>
        simp only [List.mem_cons, List.not_mem_nil, or_false] at h
        rcases h with rfl | rfl <;> rfl
      next hdotted =>
        rw [if_neg hdotted] at hself
        split at h
        next r hfound =>
          simp only [hfound] at hself
          split at h
          next hstep =>
            have hin := List.find?_some hfound
            rw [Bool.and_eq_true, decide_eq_true_eq, decide_eq_true_eq] at hin
            rw [List.mem_singleton.mp h]
            exact lowerChar_of_run (List.mem_of_find?_eq_some hfound) hin.1 hin.2 hstep
          next hstep => exact absurd (if_neg hstep) hself
        next hnone =>
          simp only [hnone] at hself
          exact absurd trivial hself

/-! ## Texts -/

/-- A text without capital letters stays as it is. -/
theorem lowerAfter_of_small {text : List Char} (h : ∀ c ∈ text, lowerChar c = [c])
    (before : List Char) : lowerAfter before text = text := by
  induction text generalizing before with
  | nil => rfl
  | cons c rest ih =>
    have hc : lowerChar c = [c] := h c List.mem_cons_self
    have hsigma : c ≠ 'Σ' := by
      rintro rfl
      exact absurd hc (by decide +kernel)
    simp only [lowerAfter, if_neg hsigma, hc, List.singleton_append]
    rw [ih fun d hd => h d (List.mem_cons_of_mem _ hd)]

theorem small_of_mem_lowerAfter {text : List Char} {d : Char} :
    ∀ {before : List Char}, d ∈ lowerAfter before text → lowerChar d = [d] := by
  induction text with
  | nil => exact fun h => absurd h List.not_mem_nil
  | cons c rest ih =>
    intro before h
    rcases List.mem_append.mp h with h | h
    · split at h
      · split at h <;> rw [List.mem_singleton.mp h] <;> decide +kernel
      · exact lowerChar_of_mem h
    · exact ih h

/-- What ends a text in lower case is in lower case. -/
theorem lowercase_drop (text : String) (n : Nat) :
    lowercase (String.ofList ((lowercase text).toList.drop n)) =
      String.ofList ((lowercase text).toList.drop n) := by
  have hsmall : ∀ c ∈ (lowercase text).toList.drop n, lowerChar c = [c] := fun c hc =>
    small_of_mem_lowerAfter <| by
      simpa only [lowercase, String.toList_ofList] using List.mem_of_mem_drop hc
  rw [lowercase, String.toList_ofList, lowerAfter_of_small hsmall]

end RecordStore
