import RecordStore.Proofs.Number.Integers
import RecordStore.Proofs.Number.HalfEven

/-!
# How numbers are written

The texts of integers and of decimal numbers, said apart from their readers: an integer is digits with
a sign in front or none, and a decimal number is digits with at most one point and at least one digit,
with a sign in front or none and an exponent behind or none. The readers accept exactly these texts. So
every text is an integer that fits a signed word, or else a decimal number that is rounded to a finite
double, or else no number at all.
-/

namespace RecordStore

/-! ## Texts -/

/-- A sign in front of a number, or none. -/
inductive SignText : (negative : Bool) → List Char → Prop
  | none : SignText false []
  | plus : SignText false ['+']
  | minus : SignText true ['-']

/-- At least one digit, with a sign in front or none. -/
inductive IntegerText : List Char → Int → Prop
  | mk {negative : Bool} {sign digits : List Char} (hs : SignText negative sign) (hne : digits ≠ [])
      (hd : ∀ c ∈ digits, c.isDigit) : IntegerText (sign ++ digits)
        (if negative then -(Nat.ofDigitChars 10 digits 0 : Int) else Nat.ofDigitChars 10 digits 0)

/-- An integer behind the letter of exponents, or nothing. -/
inductive ExponentText : List Char → Int → Prop
  | none : ExponentText [] 0
  | small {text : List Char} {n : Int} (h : IntegerText text n) : ExponentText ('e' :: text) n
  | capital {text : List Char} {n : Int} (h : IntegerText text n) : ExponentText ('E' :: text) n

/-- Digits before and behind a point, of which there is at least one. Without digits behind it the point
may be left out. -/
inductive MantissaText : List Char → (whole fraction : List Char) → Prop
  | whole {whole : List Char} (hne : whole ≠ []) (hw : ∀ c ∈ whole, c.isDigit) :
      MantissaText whole whole []
  | point {whole fraction : List Char} (hne : whole ++ fraction ≠ []) (hw : ∀ c ∈ whole, c.isDigit)
      (hf : ∀ c ∈ fraction, c.isDigit) : MantissaText (whole ++ '.' :: fraction) whole fraction

/-- A mantissa, with an exponent behind or none. The digits behind the point count against the
exponent. -/
inductive MagnitudeText : List Char → (coefficient : Nat) → (exponent : Int) → Prop
  | mk {mantissa whole fraction exponent : List Char} {n : Int}
      (hm : MantissaText mantissa whole fraction) (he : ExponentText exponent n) :
      MagnitudeText (mantissa ++ exponent) (Nat.ofDigitChars 10 (whole ++ fraction) 0)
        (n - fraction.length)

/-- A magnitude, with a sign in front or none. -/
inductive DecimalText : List Char → Decimal → Prop
  | mk {negative : Bool} {sign text : List Char} {coefficient : Nat} {exponent : Int}
      (hs : SignText negative sign) (hm : MagnitudeText text coefficient exponent) :
      DecimalText (sign ++ text) ⟨negative, coefficient, exponent⟩

/-! ## Readers -/

namespace Decimal

theorem exists_splitSign (text : List Char) : ∃ sign, SignText (splitSign text).1 sign ∧
    text = sign ++ (splitSign text).2 := by
  unfold splitSign
  split
  · exact ⟨_, .minus, rfl⟩
  · exact ⟨_, .plus, rfl⟩
  · exact ⟨_, .none, rfl⟩

/-- A sign is split off where no other sign follows. -/
theorem splitSign_append {negative : Bool} {sign rest : List Char} (hs : SignText negative sign)
    (hr : ∀ c ∈ rest.head?, c ≠ '-' ∧ c ≠ '+') : splitSign (sign ++ rest) = (negative, rest) := by
  cases hs with
  | plus | minus => rfl
  | none =>
    cases rest with
    | nil => rfl
    | cons c rest =>
      obtain ⟨hminus, hplus⟩ := hr c rfl
      simp only [List.nil_append]
      unfold splitSign
      split
      next heq => exact absurd (List.cons.inj heq).1 hminus
      next heq => exact absurd (List.cons.inj heq).1 hplus
      next => rfl

end Decimal

theorem ne_sign_of_isDigit {c : Char} (h : c.isDigit = true) : c ≠ '-' ∧ c ≠ '+' := by
  constructor <;>
  · rintro rfl
    exact absurd h (by decide)

theorem integerOfText?_eq_some_iff {text : List Char} {n : Int} :
    integerOfText? text = some n ↔ IntegerText text n := by
  constructor
  · intro h
    obtain ⟨sign, hs, htext⟩ := Decimal.exists_splitSign text
    rw [htext]
    simp only [integerOfText?] at h
    split at h
    next hdigits => cases h
    next hdigits =>
      rw [not_or, not_not, List.all_eq_true] at hdigits
      cases h
      exact .mk hs hdigits.1 hdigits.2
  · rintro ⟨hs, hne, hd⟩
    rename_i negative sign digits
    have hsplit : Decimal.splitSign (sign ++ digits) = (negative, digits) :=
      Decimal.splitSign_append hs fun c hc => ne_sign_of_isDigit (hd c (List.mem_of_mem_head? hc))
    have hall : digits.all Char.isDigit = true := List.all_eq_true.mpr hd
    simp only [integerOfText?, hsplit, hne, hall, not_true_eq_false, or_self, if_false]

namespace Decimal

theorem exponentOf?_letter {c : Char} (hc : c = 'e' ∨ c = 'E') (rest : List Char) :
    exponentOf? (c :: rest) = integerOfText? rest := by
  rw [exponentOf?, if_pos hc]
  rfl

theorem exponentOf?_eq_some_iff {text : List Char} {n : Int} :
    exponentOf? text = some n ↔ ExponentText text n := by
  constructor
  · intro h
    cases text with
    | nil =>
      cases h
      exact .none
    | cons c rest =>
      by_cases hc : c = 'e' ∨ c = 'E'
      · rw [exponentOf?_letter hc, integerOfText?_eq_some_iff] at h
        rcases hc with rfl | rfl
        · exact .small h
        · exact .capital h
      · rw [exponentOf?, if_neg hc] at h
        cases h
  · rintro (_ | h | h)
    · rfl
    · rw [exponentOf?_letter (.inl rfl), integerOfText?_eq_some_iff.mpr h]
    · rw [exponentOf?_letter (.inr rfl), integerOfText?_eq_some_iff.mpr h]

/-- Neither a digit nor a point stands at the beginning of an exponent. -/
theorem head?_exponent {text : List Char} {n : Int} (h : ExponentText text n) :
    NoDigit text ∧ text.head? ≠ some '.' := by
  cases h with
  | none => exact ⟨nofun, nofun⟩
  | small | capital => exact ⟨noDigit_cons rfl _, by simp⟩

/-- Every text begins with a run of digits, which may be empty. -/
theorem exists_digits (text : List Char) : ∃ digits rest, text = digits ++ rest ∧
    (∀ c ∈ digits, c.isDigit) ∧ NoDigit rest := by
  refine ⟨text.takeWhile Char.isDigit, text.dropWhile Char.isDigit,
    List.takeWhile_append_dropWhile.symm, List.all_eq_true.mp List.all_takeWhile, fun c hc => ?_⟩
  have hhead := List.head?_dropWhile_not Char.isDigit text
  rw [Option.mem_def.mp hc] at hhead
  exact hhead

section
variable {negative : Bool} {whole fraction rest : List Char}

theorem unsigned?_whole (hw : ∀ c ∈ whole, c.isDigit) (hr : NoDigit rest)
    (hp : rest.head? ≠ some '.') : unsigned? negative (whole ++ rest) =
      if whole = [] then none
      else (exponentOf? rest).map fun n => ⟨negative, Nat.ofDigitChars 10 whole 0, n⟩ := by
  have hpoint : ∀ more, rest ≠ '.' :: more := by
    rintro more rfl
    exact hp rfl
  simp only [unsigned?, takeWhile_digits hw hr, dropWhile_digits hw hr, and_true, List.append_nil,
    List.length_nil, Int.natCast_zero, Int.sub_zero]
  split
  · rfl
  · cases exponentOf? rest <;> rfl

theorem unsigned?_point (hw : ∀ c ∈ whole, c.isDigit) (hf : ∀ c ∈ fraction, c.isDigit)
    (hr : NoDigit rest) : unsigned? negative (whole ++ '.' :: (fraction ++ rest)) =
      if whole ++ fraction = [] then none
      else (exponentOf? rest).map fun n =>
        ⟨negative, Nat.ofDigitChars 10 (whole ++ fraction) 0, n - fraction.length⟩ := by
  have hpoint : NoDigit ('.' :: (fraction ++ rest)) := noDigit_cons rfl _
  simp only [unsigned?, takeWhile_digits hw hpoint, dropWhile_digits hw hpoint,
    takeWhile_digits hf hr, dropWhile_digits hf hr, List.append_eq_nil_iff]
  split
  · rfl
  · cases exponentOf? rest <;> rfl

theorem unsigned?_eq_some_iff {text : List Char} {d : Decimal} : unsigned? negative text = some d ↔
    ∃ coefficient exponent, MagnitudeText text coefficient exponent ∧
      d = ⟨negative, coefficient, exponent⟩ := by
  constructor
  · intro h
    obtain ⟨whole, rest, rfl, hw, hr⟩ := exists_digits text
    by_cases hpoint : rest.head? = some '.'
    · obtain ⟨more, rfl⟩ := List.head?_eq_some_iff.mp hpoint
      obtain ⟨fraction, exponent, rfl, hf, he⟩ := exists_digits more
      rw [unsigned?_point hw hf he, Option.ite_none_left_eq_some, Option.map_eq_some_iff] at h
      obtain ⟨hne, n, hn, rfl⟩ := h
      have htext := MagnitudeText.mk (.point hne hw hf) (exponentOf?_eq_some_iff.mp hn)
      rw [List.append_assoc, List.cons_append] at htext
      exact ⟨_, _, htext, rfl⟩
    · rw [unsigned?_whole hw hr hpoint, Option.ite_none_left_eq_some, Option.map_eq_some_iff] at h
      obtain ⟨hne, n, hn, rfl⟩ := h
      have htext := MagnitudeText.mk (.whole hne hw) (exponentOf?_eq_some_iff.mp hn)
      rw [List.append_nil, List.length_nil, Int.natCast_zero, Int.sub_zero] at htext
      exact ⟨_, _, htext, rfl⟩
  · rintro ⟨_, _, ⟨hm, he⟩, rfl⟩
    obtain ⟨hdigit, hpoint⟩ := head?_exponent he
    have hn := exponentOf?_eq_some_iff.mpr he
    cases hm with
    | whole hne hw =>
      rw [unsigned?_whole hw hdigit hpoint, if_neg hne, hn]
      simp
    | point hne hw hf =>
      rw [List.append_assoc, List.cons_append, unsigned?_point hw hf hdigit, if_neg hne, hn]
      rfl

end

theorem head?_mantissa {text whole fraction : List Char} (h : MantissaText text whole fraction) :
    ∃ c more, text = c :: more ∧ (c.isDigit = true ∨ c = '.') := by
  cases h with
  | whole hne hw =>
    obtain ⟨c, more, rfl⟩ := List.exists_cons_of_ne_nil hne
    exact ⟨c, more, rfl, .inl (hw c List.mem_cons_self)⟩
  | point _ hw _ =>
    cases whole with
    | nil => exact ⟨'.', fraction, rfl, .inr rfl⟩
    | cons c more => exact ⟨c, _, rfl, .inl (hw c List.mem_cons_self)⟩

/-- A magnitude begins with a digit or with a point. -/
theorem head?_magnitude {text : List Char} {coefficient : Nat} {exponent : Int}
    (h : MagnitudeText text coefficient exponent) :
    ∃ c more, text = c :: more ∧ (c.isDigit = true ∨ c = '.') := by
  obtain ⟨hm, _⟩ := h
  obtain ⟨c, more, rfl, hc⟩ := head?_mantissa hm
  exact ⟨c, _, rfl, hc⟩

theorem ofText?_eq_some_iff {text : List Char} {d : Decimal} :
    ofText? text = some d ↔ DecimalText text d := by
  constructor
  · intro h
    obtain ⟨sign, hs, htext⟩ := exists_splitSign text
    simp only [ofText?] at h
    obtain ⟨coefficient, exponent, hm, rfl⟩ := unsigned?_eq_some_iff.mp h
    generalize (splitSign text).1 = negative at hs
    rw [htext]
    exact .mk hs hm
  · rintro ⟨hs, hm⟩
    obtain ⟨c, more, rfl, hc⟩ := head?_magnitude hm
    have hsign : c ≠ '-' ∧ c ≠ '+' := by
      rcases hc with hdigit | rfl
      · exact ne_sign_of_isDigit hdigit
      · decide
    rw [ofText?, splitSign_append hs (by rintro _ ⟨⟩; exact hsign)]
    exact unsigned?_eq_some_iff.mpr ⟨_, _, hm, rfl⟩

end Decimal

/-! ## Numbers -/

namespace Number

theorem ofText_eq_ok_iff {text : String} {n : Number} :
    ofText text = .ok n ↔ ofChars? text.toList = some n := by
  unfold ofText
  cases ofChars? text.toList <;> simp

theorem ofChars?_of_fits {text : List Char} {k : Int} (h : integerOfText? text = some k)
    (hk : FitsInt64 k) : ofChars? text = some (.integer k hk.inRange) := by
  simp only [ofChars?, h, dif_pos hk]

theorem ofChars?_toString (n : Int64) : ofChars? (toString n.toInt).toList = some (.ofInt64 n) := by
  have hlow := n.le_toInt
  have hhigh := n.toInt_lt
  exact ofChars?_of_fits (integerOfText?_toString n.toInt) (by unfold FitsInt64; omega)

/-- What is no integer that fits is read as the double of a decimal number. -/
theorem ofChars?_of_not_fits {text : List Char}
    (h : ∀ k, integerOfText? text = some k → ¬ FitsInt64 k) {n : Number} :
    ofChars? text = some n ↔
      ∃ d x, Decimal.ofText? text = some d ∧ d.toDouble = .finite x ∧ n = .float x := by
  unfold ofChars?
  -- Both ways to the double are the same, whether the text is no integer or one that does not fit.
  cases hinteger : integerOfText? text
  case' some k => simp only [dif_neg (h k hinteger)]
  all_goals
    cases Decimal.ofText? text with
    | none => simp
    | some d => cases hdouble : d.toDouble <;> simp [hdouble, eq_comm]

theorem ofText_eq_error_iff {text : String} {e : NotANumber} :
    ofText text = .error e ↔ e = ⟨text⟩ ∧ ofChars? text.toList = none := by
  unfold ofText
  cases ofChars? text.toList <;> simp [eq_comm]

/-- An integer that fits leaves nothing else to be read. -/
theorem not_fits_of_ofChars? {text : List Char} (h : ∀ k hk, ofChars? text ≠ some (.integer k hk)) :
    ∀ k, integerOfText? text = some k → ¬ FitsInt64 k :=
  fun _ hinteger hk => h _ _ (ofChars?_of_fits hinteger hk)

theorem ofChars?_eq_integer_iff {text : List Char} {k : Int} {hr : InRange k} :
    ofChars? text = some (.integer k hr) ↔ IntegerText text k ∧ FitsInt64 k := by
  rw [← integerOfText?_eq_some_iff]
  refine ⟨fun h => ?_, fun ⟨hinteger, hk⟩ => ofChars?_of_fits hinteger hk⟩
  by_cases hfits : ∃ i, integerOfText? text = some i ∧ FitsInt64 i
  · obtain ⟨i, hinteger, hi⟩ := hfits
    rw [ofChars?_of_fits hinteger hi] at h
    cases h
    exact ⟨hinteger, hi⟩
  · obtain ⟨_, _, _, _, hfloat⟩ := (ofChars?_of_not_fits fun i hi hf => hfits ⟨i, hi, hf⟩).mp h
    cases hfloat

theorem ofChars?_eq_float_iff {text : List Char} {x : Binary64} : ofChars? text = some (.float x) ↔
    (∀ k, IntegerText text k → ¬ FitsInt64 k) ∧
      ∃ d, DecimalText text d ∧ x.Rounds d.negative d.value := by
  simp only [← integerOfText?_eq_some_iff, ← Decimal.ofText?_eq_some_iff,
    ← Decimal.toDouble_eq_finite_iff]
  constructor
  · intro h
    have hnot := not_fits_of_ofChars? fun k hk hinteger => by
      rw [h] at hinteger
      cases hinteger
    obtain ⟨d, _, hd, hx, hfloat⟩ := (ofChars?_of_not_fits hnot).mp h
    cases hfloat
    exact ⟨hnot, d, hd, hx⟩
  · rintro ⟨hnot, d, hd, hx⟩
    exact (ofChars?_of_not_fits hnot).mpr ⟨d, x, hd, hx, rfl⟩

theorem ofChars?_eq_none_iff {text : List Char} : ofChars? text = none ↔
    (∀ k, IntegerText text k → ¬ FitsInt64 k) ∧
      ∀ d, DecimalText text d → 2 ^ 1024 - 2 ^ 970 ≤ |d.value| := by
  have hbeyond : ∀ d : Decimal, 2 ^ 1024 - 2 ^ 970 ≤ |d.value| ↔ ∀ x, d.toDouble ≠ .finite x := by
    intro d
    rw [← not_lt, ← Decimal.toDouble_finite_iff, not_exists]
  simp only [← integerOfText?_eq_some_iff, ← Decimal.ofText?_eq_some_iff, hbeyond]
  constructor
  · intro h
    have hnot := not_fits_of_ofChars? fun k hk hinteger => by
      rw [h] at hinteger
      cases hinteger
    refine ⟨hnot, fun d hd x hx => ?_⟩
    have hfound := (ofChars?_of_not_fits hnot).mpr ⟨d, x, hd, hx, rfl⟩
    rw [h] at hfound
    cases hfound
  · rintro ⟨hnot, hnone⟩
    refine Option.eq_none_iff_forall_ne_some.mpr fun n hn => ?_
    obtain ⟨d, x, hd, hx, -⟩ := (ofChars?_of_not_fits hnot).mp hn
    exact hnone d hd x hx

/-- Every text is a number in one of two ways, or none. It is an integer exactly if it is the text of one
that fits a signed word, so that every signed word is read back from its text. Otherwise it is a double
exactly if it is the text of a decimal number whose value is rounded to that double. What is neither, and
what is beyond the doubles, is refused with the text itself. -/
theorem ofText_classified (text : String) :
    (∀ n h, ofText text = .ok (.integer n h) ↔ IntegerText text.toList n ∧ FitsInt64 n) ∧
    (∀ x, ofText text = .ok (.float x) ↔ (∀ n, IntegerText text.toList n → ¬ FitsInt64 n) ∧
      ∃ d, DecimalText text.toList d ∧ x.Rounds d.negative d.value) ∧
    (∀ e, ofText text = .error e ↔ e = ⟨text⟩ ∧ (∀ n, IntegerText text.toList n → ¬ FitsInt64 n) ∧
      ∀ d, DecimalText text.toList d → 2 ^ 1024 - 2 ^ 970 ≤ |d.value|) ∧
    ∀ n : Int64, ofText (toString n.toInt) = .ok (.ofInt64 n) := by
  simp only [ofText_eq_ok_iff, ofText_eq_error_iff]
  refine ⟨fun n h => ofChars?_eq_integer_iff, fun x => ofChars?_eq_float_iff,
    fun e => and_congr_right fun _ => ofChars?_eq_none_iff, ofChars?_toString⟩

/-- What falls between the two readers: a signed zero is an integer, an integer just beyond the signed
words is a double, and a point needs a digit on one side only. -/
example : [ofText "-0", ofText "9223372036854775808", ofText "5.", ofText "1e309", ofText "inf"] =
    [.ok (.ofInt64 0), .ok (.float ⟨false, twoTo 52, 1085, by decide⟩),
      .ok (.float ⟨false, 5 * twoTo 50, 1024, by decide⟩), .error ⟨"1e309"⟩, .error ⟨"inf"⟩] := by
  decide +kernel

end Number

end RecordStore
