import RecordStore.Proofs.Json.Numbers

/-!
# The text of integers

An integer is written as its decimal digits, with a hyphen in front where it is negative, and read
back as the same integer.
-/

namespace RecordStore

/-- A text of digits, with a minus in front or nothing, denotes the integer that the digits do. -/
theorem integerOfText?_digits (negative : Bool) {digits : List Char} (hne : digits ≠ [])
    (hd : ∀ c ∈ digits, c.isDigit) :
    integerOfText? (if negative then '-' :: digits else digits) =
      some (if negative then -(Nat.ofDigitChars 10 digits 0 : Int)
        else Nat.ofDigitChars 10 digits 0) := by
  have hsign : Decimal.splitSign (if negative then '-' :: digits else digits) = (negative, digits) := by
    cases negative with
    | true => rfl
    | false =>
      obtain ⟨c, rest, rfl⟩ := List.exists_cons_of_ne_nil hne
      have hdigit : c.isDigit := hd c List.mem_cons_self
      -- A digit is neither of the signs.
      unfold Decimal.splitSign
      split
      next heq =>
        cases heq
        exact absurd hdigit (by decide)
      next heq =>
        cases heq
        exact absurd hdigit (by decide)
      next => rfl
  have hall : digits.all Char.isDigit = true := List.all_eq_true.mpr hd
  simp only [integerOfText?, hsign, hne, hall, not_true_eq_false, or_self, if_false]

theorem toList_toString (n : Int) : (toString n).toList =
    if n < 0 then '-' :: Nat.toDigits 10 n.natAbs else Nat.toDigits 10 n.natAbs := by
  cases n with
  | ofNat m =>
    rw [if_neg (by simp)]
    exact Nat.toList_repr
  | negSucc m =>
    have hsplit : (toString (Int.negSucc m)).toList = "-".toList ++ (Nat.repr (m + 1)).toList :=
      String.toList_append
    rw [if_pos (Int.negSucc_lt_zero m), hsplit, Nat.toList_repr]
    rfl

/-- An integer is read back from its text. -/
theorem integerOfText?_toString (n : Int) : integerOfText? (toString n).toList = some n := by
  have hread := integerOfText?_digits (decide (n < 0)) Nat.toDigits_ne_nil (isDigit_toDigits n.natAbs)
  simp only [decide_eq_true_eq, Nat.ofDigitChars_ten_toDigits] at hread
  rw [toList_toString, hread]
  congr 1
  split <;> omega

/-- The text of an integer starts with a hyphen exactly if the integer is negative. -/
theorem head?_toString (n : Int) : (toString n).toList.head? = some '-' ↔ n < 0 := by
  rw [toList_toString]
  split
  next h => simpa using h
  next h =>
    refine iff_of_false (fun hhead => ?_) h
    have hdigit := isDigit_toDigits n.natAbs '-' (List.mem_of_mem_head? hhead)
    exact absurd hdigit (by decide)

end RecordStore
