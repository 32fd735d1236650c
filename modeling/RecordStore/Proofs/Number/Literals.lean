import RecordStore.Proofs.Number.Grammar

/-!
# The text of a double as a decimal number

However the digits of a double are set out, its text is that of a decimal number, and the number is
rounded to the double. In the styles that keep the point of whole numbers the text is never that of an
integer, so that a double is read as a double.
-/

namespace RecordStore

namespace FloatStyle

variable {style : FloatStyle} {digits : List Char}

/-- The exponent behind the digits of a number. -/
theorem exponentText_scientific (style : FloatStyle) (lead : Int) :
    ExponentText ('e' :: (match lead with
      | .ofNat n => (if style.plusSign then ['+'] else []) ++ Nat.toDigits 10 n
      | .negSucc n => '-' :: Nat.toDigits 10 (n + 1))) lead := by
  refine .small ?_
  cases lead with
  | ofNat n =>
    have hs : SignText false (if style.plusSign then ['+'] else []) := by
      cases style.plusSign
      · exact .none
      · exact .plus
    have htext := IntegerText.mk hs (Nat.toDigits_ne_nil (b := 10) (n := n)) (isDigit_toDigits n)
    rwa [if_neg Bool.false_ne_true, Nat.ofDigitChars_ten_toDigits] at htext
  | negSucc n =>
    have htext := IntegerText.mk .minus (Nat.toDigits_ne_nil (b := 10) (n := n + 1))
      (isDigit_toDigits (n + 1))
    rwa [if_pos rfl, Nat.ofDigitChars_ten_toDigits] at htext

section
variable (hne : digits ≠ []) (hd : ∀ c ∈ digits, c.isDigit)
include hne hd

theorem magnitudeText_scientific (lead : Int) : MagnitudeText (style.scientific digits lead)
    (Nat.ofDigitChars 10 digits 0) (lead - (digits.length - 1)) := by
  have he := exponentText_scientific style lead
  obtain ⟨first, more, rfl⟩ := List.exists_cons_of_ne_nil hne
  have hfirst : ∀ c ∈ [first], c.isDigit := List.forall_mem_singleton.mpr (hd first List.mem_cons_self)
  have hmore : ∀ c ∈ more, c.isDigit := fun c hc => hd c (List.mem_cons_of_mem _ hc)
  have hlength : lead - ((first :: more).length - 1 : Int) = lead - more.length := by
    rw [List.length_cons, Int.natCast_succ, Int.add_sub_cancel]
  rw [hlength]
  cases more with
  | nil => exact .mk (.whole hne hd) he
  | cons second more => exact .mk (.point (List.cons_ne_nil _ _) hfirst hmore) he

/-- Digits with a point somewhere, or zeros in front of it, denote the same number. -/
theorem magnitudeText_positional (negative : Bool) (lead : Int) : ∃ coefficient exponent,
    MagnitudeText (style.positional digits lead) coefficient exponent ∧
      Decimal.toDouble ⟨negative, coefficient, exponent⟩ =
        Decimal.toDouble ⟨negative, Nat.ofDigitChars 10 digits 0, lead - (digits.length - 1)⟩ := by
  have hzeros : ∀ k, ∀ c ∈ List.replicate k '0', c.isDigit := fun k c hc => by
    rw [List.eq_of_mem_replicate hc]
    rfl
  have hpadded : ∀ k, ∀ c ∈ digits ++ List.replicate k '0', c.isDigit := fun k c hc =>
    (List.mem_append.mp hc).elim (hd c) (hzeros k c)
  unfold positional
  split
  next n =>
    have hfraction : ∀ c ∈ List.replicate n '0' ++ digits, c.isDigit := fun c hc =>
      (List.mem_append.mp hc).elim (hzeros n c) (hd c)
    have htext := MagnitudeText.mk (.point (List.cons_ne_nil _ _) (hzeros 1) hfraction) .none
    rw [List.append_nil] at htext
    refine ⟨_, _, htext, ?_⟩
    rw [ofDigitChars_zeros_append 1, ofDigitChars_zeros_append n, List.length_append,
      List.length_replicate]
    congr 2
    omega
  next n =>
    rw [Int.ofNat_eq_natCast]
    split
    next hshort =>
      cases style.wholePoint with
      | true =>
        have htext := MagnitudeText.mk (.point (by simp [hne]) (hpadded (n + 1 - digits.length))
          (hzeros 1)) .none
        rw [List.append_nil] at htext
        refine ⟨_, _, htext, ?_⟩
        rw [List.append_assoc digits, List.replicate_append_replicate, ofDigitChars_append_zeros,
          Decimal.toDouble_shift, List.length_replicate]
        congr 2
        omega
      | false =>
        have htext := MagnitudeText.mk (.whole (by simp [hne]) (hpadded (n + 1 - digits.length))) .none
        refine ⟨_, _, htext, ?_⟩
        rw [List.append_nil, ofDigitChars_append_zeros, Decimal.toDouble_shift, List.length_nil]
        congr 2
        omega
    next hlong =>
      have htake : ∀ c ∈ digits.take (n + 1), c.isDigit := fun c hc => hd c (List.mem_of_mem_take hc)
      have hdrop : ∀ c ∈ digits.drop (n + 1), c.isDigit := fun c hc => hd c (List.mem_of_mem_drop hc)
      have htext := MagnitudeText.mk (.point (by rwa [List.take_append_drop]) htake hdrop) .none
      rw [List.append_nil] at htext
      refine ⟨_, _, htext, ?_⟩
      rw [List.take_append_drop, List.length_drop]
      congr 2
      omega

end

/-- Digits are set out with a point or with an exponent, if whole numbers keep their point. -/
theorem point_or_letter_mem (hs : style.wholePoint = true) (digits : List Char) (lead : Int) :
    '.' ∈ style.positional digits lead ∧ 'e' ∈ style.scientific digits lead := by
  refine ⟨?_, by simp [scientific]⟩
  unfold positional
  split
  · simp
  · rw [hs]
    split <;> simp

/-- The text of a double is a magnitude, with a hyphen in front if the double is negative, and the
double is what it denotes, rounded. -/
theorem magnitudeText_text (style : FloatStyle) (x : Binary64) : ∃ text coefficient exponent,
    style.text x = (if x.negative then '-' :: text else text) ∧
      MagnitudeText text coefficient exponent ∧
      Decimal.toDouble ⟨x.negative, coefficient, exponent⟩ = .finite x ∧
      (style.wholePoint = true → '.' ∈ text ∨ 'e' ∈ text) := by
  obtain ⟨hdouble, hnegative⟩ := x.shortest_toDouble
  rw [text, ofDecimal]
  generalize x.shortest = d at hdouble hnegative
  obtain ⟨negative, coefficient, exponent⟩ := d
  obtain rfl : negative = x.negative := hnegative
  have hne := Nat.toDigits_ne_nil (b := 10) (n := coefficient)
  have hd := isDigit_toDigits coefficient
  have hvalue := Nat.ofDigitChars_ten_toDigits (n := coefficient)
  simp only []
  generalize Nat.toDigits 10 coefficient = digits at hne hd hvalue ⊢
  have hexponent : exponent + digits.length - 1 - (digits.length - 1) = exponent := by omega
  generalize exponent + digits.length - 1 = lead at hexponent ⊢
  rw [← hexponent, ← hvalue] at hdouble
  by_cases hplain : style.least ≤ lead ∧ lead ≤ style.most
  · rw [if_pos hplain]
    obtain ⟨coefficient, exponent, htext, hsame⟩ := magnitudeText_positional hne hd x.negative lead
    exact ⟨_, _, _, rfl, htext, hsame.trans hdouble,
      fun hs => .inl (point_or_letter_mem hs digits lead).1⟩
  · rw [if_neg hplain]
    exact ⟨_, _, _, rfl, magnitudeText_scientific hne hd lead, hdouble,
      fun hs => .inr (point_or_letter_mem hs digits lead).2⟩

/-- The text of a double is a decimal number that is rounded to the double. -/
theorem decimalText_text (style : FloatStyle) (x : Binary64) : ∃ d, DecimalText (style.text x) d ∧
    d.toDouble = .finite x ∧
      (style.wholePoint = true → '.' ∈ style.text x ∨ 'e' ∈ style.text x) := by
  obtain ⟨text, coefficient, exponent, htext, hm, hdouble, hmark⟩ := style.magnitudeText_text x
  have hsign : SignText x.negative (if x.negative then ['-'] else []) := by
    cases x.negative
    · exact .none
    · exact .minus
  have happend : style.text x = (if x.negative then ['-'] else []) ++ text := by
    rw [htext]
    cases x.negative <;> rfl
  rw [happend]
  exact ⟨⟨x.negative, coefficient, exponent⟩, .mk hsign hm, hdouble,
    fun hs => (hmark hs).imp (List.mem_append_right _) (List.mem_append_right _)⟩

end FloatStyle

/-- The text of an integer holds digits and a sign. -/
theorem isDigit_of_integerText {text : List Char} {n : Int} (h : IntegerText text n) :
    ∀ c ∈ text, c.isDigit = true ∨ c = '+' ∨ c = '-' := by
  intro c hc
  obtain ⟨hs, _, hd⟩ := h
  rcases List.mem_append.mp hc with hsign | hdigit
  · cases hs <;> simp_all
  · exact .inl (hd c hdigit)

end RecordStore
