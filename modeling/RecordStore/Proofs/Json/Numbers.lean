import RecordStore.Proofs.Number.Rounding
import RecordStore.Json.Reader
import RecordStore.Proofs.Outcome
import Mathlib.Tactic.ByContra

/-!
# Reading numbers back

The text of a number is read to its end. An integer is written with its digits only, and read as
itself. A double is written as its shortest decimal number, whose digits are set out in one of four
ways: behind a point and zeros, with zeros behind them, with a point between them, or with an
exponent. All four denote a decimal number of the same value, to which the double is the nearest one.
Exponents are small, since decimal numbers with large ones are not rounded to finite doubles other
than zero. So it is up to the reader of the digits whether the double is read back.
-/

namespace RecordStore

/-! ## Runs of digits -/

/-- No digit comes first. -/
def NoDigit (text : List Char) : Prop := ∀ c ∈ text.head?, c.isDigit = false

theorem noDigit_cons {c : Char} (h : c.isDigit = false) (text : List Char) : NoDigit (c :: text) := by
  rintro _ ⟨⟩
  exact h

theorem takeWhile_digits {digits rest : List Char} (hd : ∀ c ∈ digits, c.isDigit)
    (hr : NoDigit rest) : (digits ++ rest).takeWhile Char.isDigit = digits := by
  rw [List.takeWhile_append_of_pos hd]
  cases rest with
  | nil => rw [List.takeWhile_nil, List.append_nil]
  | cons c rest => rw [List.takeWhile_cons_of_neg (by simpa using hr c rfl), List.append_nil]

theorem dropWhile_digits {digits rest : List Char} (hd : ∀ c ∈ digits, c.isDigit)
    (hr : NoDigit rest) : (digits ++ rest).dropWhile Char.isDigit = rest := by
  rw [List.dropWhile_append_of_pos hd]
  cases rest with
  | nil => rfl
  | cons c rest => rw [List.dropWhile_cons_of_neg (by simpa using hr c rfl)]

theorem isDigit_toDigits (n : Nat) : ∀ c ∈ Nat.toDigits 10 n, c.isDigit :=
  fun _ hc => Nat.isDigit_of_mem_toDigits (by decide) (Nat.le_refl _) hc

theorem ofDigitChars_zeros_append (n : Nat) (digits : List Char) :
    Nat.ofDigitChars 10 (List.replicate n '0' ++ digits) 0 = Nat.ofDigitChars 10 digits 0 := by
  induction n with
  | zero => rfl
  | succ n ih =>
    rw [List.replicate_succ, List.cons_append, Nat.ofDigitChars_cons]
    exact ih

theorem ofDigitChars_append_zeros (digits : List Char) (n : Nat) :
    Nat.ofDigitChars 10 (digits ++ List.replicate n '0') 0 =
      Nat.ofDigitChars 10 digits 0 * tenTo n := by
  have hzeros := ofDigitChars_zeros_append n []
  rw [List.append_nil, Nat.ofDigitChars_nil] at hzeros
  rw [Nat.ofDigitChars_append, Nat.ofDigitChars_eq_ofDigitChars_zero, hzeros,
    List.length_replicate, Nat.add_zero, Nat.mul_comm]
  rfl

theorem ofDigitChars_lt {digits : List Char} (h : ∀ c ∈ digits, c.isDigit) :
    Nat.ofDigitChars 10 digits 0 < tenTo digits.length := by
  induction digits with
  | nil => decide
  | cons c digits ih =>
    have hc : c.toNat - '0'.toNat < 10 := by
      have hdigit := h c List.mem_cons_self
      simp only [Char.isDigit, Bool.and_eq_true, decide_eq_true_eq] at hdigit
      have hle : c.toNat ≤ 57 := hdigit.2
      show c.toNat - 48 < 10
      omega
    have hrest := ih fun c hc => h c (List.mem_cons_of_mem _ hc)
    have hfirst : tenTo digits.length * (10 * 0 + (c.toNat - '0'.toNat)) ≤ tenTo digits.length * 9 :=
      Nat.mul_le_mul_left _ (by omega)
    have hsucc : tenTo (digits.length + 1) = tenTo digits.length * 10 := rfl
    rw [Nat.ofDigitChars_cons, Nat.ofDigitChars_eq_ofDigitChars_zero, List.length_cons, hsucc]
    change tenTo digits.length * _ + _ < _
    omega

/-- The digits before the point: there are some, and zero comes first only alone. -/
structure Whole (digits : List Char) : Prop where
  isDigit : ∀ c ∈ digits, c.isDigit
  ne_nil : digits ≠ []
  zero : ∀ rest, digits = '0' :: rest → rest = []

theorem whole_single {c : Char} (h : c.isDigit) : Whole [c] :=
  ⟨by simpa using h, List.cons_ne_nil _ _, by simp⟩

theorem whole_toDigits (n : Nat) : Whole (Nat.toDigits 10 n) := by
  refine ⟨isDigit_toDigits n, Nat.toDigits_ne_nil, fun rest hrest => ?_⟩
  by_contra hne
  have hpos : 0 < rest.length := List.length_pos_iff.mpr hne
  -- The digits after the zero would denote the same number, which has too many digits for that.
  have hvalue : Nat.ofDigitChars 10 rest 0 = n := by
    rw [← Nat.ofDigitChars_ten_toDigits (n := n), hrest, Nat.ofDigitChars_cons]
    rfl
  have hrestDigits : ∀ c ∈ rest, c.isDigit := fun c hc =>
    isDigit_toDigits n c (hrest ▸ List.mem_cons_of_mem _ hc)
  have hshort := (Nat.length_toDigits_le_iff (by decide) hpos).mpr
    (hvalue ▸ ofDigitChars_lt hrestDigits)
  rw [hrest, List.length_cons] at hshort
  omega

/-- Digits before the point may go on. -/
theorem Whole.append {digits more : List Char} (h : Whole digits) (hm : ∀ c ∈ more, c.isDigit)
    (hz : digits = ['0'] → more = []) : Whole (digits ++ more) := by
  refine ⟨fun c hc => ?_, by simp [h.ne_nil], fun rest hrest => ?_⟩
  · rcases List.mem_append.mp hc with hc | hc
    · exact h.isDigit c hc
    · exact hm c hc
  · obtain ⟨c, tail, rfl⟩ := List.exists_cons_of_ne_nil h.ne_nil
    obtain ⟨rfl, rfl⟩ := List.cons.inj hrest
    have htail := h.zero tail rfl
    rw [htail, hz (by rw [htail])]
    rfl

theorem Whole.take {digits : List Char} (h : Whole digits) (n : Nat) (hz : digits ≠ ['0']) :
    Whole (digits.take (n + 1)) := by
  obtain ⟨c, tail, rfl⟩ := List.exists_cons_of_ne_nil h.ne_nil
  refine ⟨fun c hc => h.isDigit c (List.mem_of_mem_take hc), by simp, fun rest hrest => ?_⟩
  obtain ⟨rfl, -⟩ := List.cons.inj hrest
  exact absurd (by rw [h.zero tail rfl]) hz

/-! ## The leading digit of a double -/

namespace Decimal

/-- The exponent of the leading digit. -/
def lead (d : Decimal) : Int := d.exponent + (Nat.toDigits 10 d.coefficient).length - 1

theorem toDouble_zero (negative : Bool) (exponent : Int) :
    toDouble ⟨negative, 0, exponent⟩ = .finite (.zero negative) := if_pos rfl

variable {d : Decimal} {x : Binary64}

theorem lead_lt (h : d.toDouble = .finite x) (hc : d.coefficient ≠ 0) : d.lead < 309 := by
  obtain ⟨negative, coefficient, exponent⟩ := d
  by_contra hlarge
  simp only [lead] at hlarge hc
  obtain ⟨length, hlength⟩ : ∃ length, (Nat.toDigits 10 coefficient).length = length + 1 :=
    ⟨_, (Nat.sub_add_cancel (Nat.length_toDigits_pos)).symm⟩
  have hlow : tenTo length ≤ coefficient := by
    by_cases hzero : length = 0
    · subst hzero
      exact Nat.one_le_iff_ne_zero.mpr hc
    · by_contra hlt
      have hle := (Nat.length_toDigits_le_iff (b := 10) (n := coefficient) (by decide)
        (Nat.pos_of_ne_zero hzero)).mpr (Nat.not_le.mp hlt)
      omega
  have hpower : tenTo 309 * tenTo (-exponent).toNat ≤ coefficient * tenTo exponent.toNat := by
    refine Nat.le_trans ?_ (Nat.mul_le_mul_right _ hlow)
    rw [← tenTo_add, ← tenTo_add]
    exact tenTo_le (by omega)
  rw [toDouble_eq, Double.ofUnits_large (tenTo_pos _) (large_le hpower)] at h
  cases h

theorem lt_lead (h : d.toDouble = .finite x) (hx : x.mantissa ≠ 0) : -360 < d.lead := by
  obtain ⟨negative, coefficient, exponent⟩ := d
  by_contra hsmall
  simp only [lead] at hsmall
  have hpos := Nat.length_toDigits_pos (b := 10) (n := coefficient)
  have hhigh : coefficient < tenTo (Nat.toDigits 10 coefficient).length :=
    (Nat.length_toDigits_le_iff (by decide) hpos).mp (Nat.le_refl _)
  have hpower : coefficient * tenTo exponent.toNat * twoTo 1076 ≤ tenTo (-exponent).toNat := by
    have hexponent : exponent.toNat = 0 := by omega
    have htwo : twoTo 1076 ≤ tenTo 359 := Nat.le_trans (twoTo_le (by decide)) (twoTo_three_mul_le 359)
    rw [hexponent, show tenTo 0 = 1 from rfl, Nat.mul_one]
    refine Nat.le_trans (Nat.mul_le_mul (Nat.le_of_lt hhigh) htwo) ?_
    rw [← tenTo_add]
    exact tenTo_le (by omega)
  rw [toDouble_eq, Double.ofUnits_small (small_lt hpower (tenTo_pos _))] at h
  cases h
  exact hx rfl

end Decimal

namespace Json

/-- What may follow a value: nothing, or what separates it from the next or ends a list. -/
def Follows (rest : List Char) : Prop := ∀ c ∈ rest.head?, c = ',' ∨ c = ']' ∨ c = '}'

theorem Follows.noDigit {rest : List Char} (h : Follows rest) : NoDigit rest := by
  intro c hc
  rcases h c hc with rfl | rfl | rfl <;> rfl

variable {reading : FloatReading} {negative : Bool} {rest : List Char} {n : Number} {x : Binary64}

/-! ## Parts of numbers -/

theorem readNumber_whole {whole : List Char} (h : Whole whole) (hr : NoDigit rest) :
    readNumber reading negative (whole ++ rest) = readFraction reading negative whole rest := by
  obtain ⟨c, digits, rfl⟩ := List.exists_cons_of_ne_nil h.ne_nil
  have hdigits : ∀ c ∈ digits, c.isDigit := fun c hc => h.isDigit c (List.mem_cons_of_mem _ hc)
  rw [List.cons_append, readNumber, takeWhile_digits hdigits hr, dropWhile_digits hdigits hr]
  split
  next hzero =>
    subst hzero
    rw [h.zero digits rfl]
    rfl
  next => rw [if_pos (h.isDigit c List.mem_cons_self)]

/-- The text starts with a digit. -/
def StartsDigit (text : List Char) : Prop := ∃ c more, text = c :: more ∧ c.isDigit

theorem startsDigit_of_read {text : List Char} {result : Number × List Char}
    (h : readNumber reading negative text = .ok result) : StartsDigit text := by
  cases text with
  | nil => cases h
  | cons c more =>
    refine ⟨c, more, rfl, ?_⟩
    rw [readNumber] at h
    split at h
    next hzero =>
      subst hzero
      rfl
    next =>
      split at h
      · assumption
      · cases h

/-- A number with its sign is read as a value. -/
theorem readScalar_signed {text : List Char} (h : StartsDigit text) (reading : FloatReading)
    (negative : Bool) (rest : List Char) :
    readScalar reading ((if negative then '-' :: text else text) ++ rest) =
      readNumber reading negative (text ++ rest) >>= fun read => .ok (.number read.1, read.2) := by
  obtain ⟨c, more, rfl, hc⟩ := h
  cases negative with
  | true => rfl
  | false =>
    have hne : c ≠ 'n' ∧ c ≠ 't' ∧ c ≠ 'f' ∧ c ≠ '"' ∧ c ≠ '-' := by
      refine ⟨?_, ?_, ?_, ?_, ?_⟩ <;>
      · rintro rfl
        exact absurd hc (by decide)
    simp only [Bool.false_eq_true, if_false, List.cons_append, readScalar, hne, hc, if_true]

theorem exceeding?_eq_none {digits : List Char} {value : Nat}
    (h : Nat.ofDigitChars 10 digits value < twoTo 31) : exceeding? value digits = none := by
  induction digits generalizing value with
  | nil => rfl
  | cons c digits ih =>
    rw [Nat.ofDigitChars_cons, Nat.mul_comm 10] at h
    have hle : value * 10 + (c.toNat - '0'.toNat) ≤
        Nat.ofDigitChars 10 digits (value * 10 + (c.toNat - '0'.toNat)) := by
      rw [Nat.ofDigitChars_eq_ofDigitChars_zero]
      exact Nat.le_trans (Nat.le_mul_of_pos_left _ (Nat.pow_pos (by decide))) (Nat.le_add_right _ _)
    simp only [exceeding?]
    rw [if_neg (by omega), ih h]

theorem readFloat_eq_ok {whole fraction : List Char} {exponent : Int}
    (h : reading negative whole fraction exponent = .finite x) :
    readFloat reading negative whole fraction exponent rest = .ok (.float x, rest) := by
  rw [readFloat, h]

/-- The text of an exponent. -/
def exponentChars : Int → List Char
  | .ofNat n => '+' :: Nat.toDigits 10 n
  | .negSucc n => '-' :: Nat.toDigits 10 (n + 1)

theorem scientific_single (c : Char) (lead : Int) :
    FloatStyle.json.scientific [c] lead = [c] ++ 'e' :: exponentChars lead := by
  cases lead <;> rfl

theorem scientific_cons (c second : Char) (more : List Char) (lead : Int) :
    FloatStyle.json.scientific (c :: second :: more) lead =
      [c] ++ '.' :: ((second :: more) ++ 'e' :: exponentChars lead) := by
  cases lead <;> simp [FloatStyle.scientific, FloatStyle.json, exponentChars]

section
variable {whole digits : List Char}

/-- An exponent is read after its letter. -/
theorem readExponent_chars {shift : Int} (hr : NoDigit rest) (hs : shift.natAbs < twoTo 31) :
    readExponent reading negative whole digits (exponentChars shift ++ rest) =
      readFloat reading negative whole digits shift rest := by
  have hdigits (n : Nat) (hn : n < twoTo 31) :
      (Nat.toDigits 10 n ++ rest).takeWhile Char.isDigit = Nat.toDigits 10 n ∧
      (Nat.toDigits 10 n ++ rest).dropWhile Char.isDigit = rest ∧ Nat.toDigits 10 n ≠ [] ∧
      exceeding? 0 (Nat.toDigits 10 n) = none :=
    ⟨takeWhile_digits (isDigit_toDigits n) hr, dropWhile_digits (isDigit_toDigits n) hr,
      Nat.toDigits_ne_nil, exceeding?_eq_none (by rwa [Nat.ofDigitChars_ten_toDigits])⟩
  cases shift with
  | ofNat n =>
    obtain ⟨htake, hdrop, hne, hsmall⟩ := hdigits n hs
    have hsign : Decimal.splitSign (exponentChars (.ofNat n) ++ rest) =
        (false, Nat.toDigits 10 n ++ rest) := rfl
    simp only [readExponent, hsign, htake, hdrop, if_neg hne, hsmall, Nat.ofDigitChars_ten_toDigits]
    rfl
  | negSucc n =>
    obtain ⟨htake, hdrop, hne, hsmall⟩ := hdigits (n + 1) hs
    have hsign : Decimal.splitSign (exponentChars (.negSucc n) ++ rest) =
        (true, Nat.toDigits 10 (n + 1) ++ rest) := rfl
    simp only [readExponent, hsign, htake, hdrop, if_neg hne, hsmall, Nat.ofDigitChars_ten_toDigits]
    rfl

variable (hw : Whole whole) (hd : ∀ c ∈ digits, c.isDigit) (hne : digits ≠ [])
include hw hd hne

/-- Digits with a point between them and nothing after them. -/
theorem readNumber_fraction (hr : Follows rest) :
    readNumber reading negative (whole ++ '.' :: (digits ++ rest)) =
      readFloat reading negative whole digits 0 rest := by
  rw [readNumber_whole hw (noDigit_cons rfl _)]
  simp only [readFraction, takeWhile_digits hd hr.noDigit, dropWhile_digits hd hr.noDigit, if_neg hne]
  split
  next => exact absurd (hr _ rfl) (by decide)
  next => exact absurd (hr _ rfl) (by decide)
  next => rfl

/-- Digits with a point between them and an exponent after them. -/
theorem readNumber_fraction_exponent {text : List Char} :
    readNumber reading negative (whole ++ '.' :: (digits ++ 'e' :: text)) =
      readExponent reading negative whole digits text := by
  have hexponent : NoDigit ('e' :: text) := noDigit_cons rfl text
  rw [readNumber_whole hw (noDigit_cons rfl _)]
  simp only [readFraction, takeWhile_digits hd hexponent, dropWhile_digits hd hexponent, if_neg hne]

end

/-! ## Whole numbers -/

theorem readNumber_integer {n : Int} (h : Number.InRange n) (hr : Follows rest) :
    readNumber reading (n < 0) (Nat.toDigits 10 n.natAbs ++ rest) = .ok (.integer n h, rest) := by
  have hsigned : (if n < 0 then -(n.natAbs : Int) else n.natAbs) = n := by
    split <;> omega
  have hzero : ¬ (n < 0 ∧ n.natAbs = 0) := by omega
  have hinteger : readInteger reading (n < 0) (Nat.toDigits 10 n.natAbs) rest =
      .ok (.integer n h, rest) := by
    simp only [readInteger, Nat.ofDigitChars_ten_toDigits, decide_eq_true_eq, hsigned, dif_pos h,
      if_neg hzero]
  rw [readNumber_whole (whole_toDigits _) hr.noDigit]
  unfold readFraction
  split
  next => exact absurd (hr _ rfl) (by decide)
  next => exact absurd (hr _ rfl) (by decide)
  next => exact absurd (hr _ rfl) (by decide)
  next => exact hinteger

/-! ## Doubles -/

/-- Behind its sign, a text is read as the digits of a number to which the double is the nearest one,
whatever follows it. -/
def Numeral (negative : Bool) (x : Binary64) (text : List Char) : Prop :=
  ∃ whole fraction exponent, nearestDouble negative whole fraction exponent = .finite x ∧
    ∀ reading rest, Follows rest → readNumber reading negative (text ++ rest) =
      readFloat reading negative whole fraction exponent rest

theorem numeral_fraction {whole digits : List Char} (hw : Whole whole)
    (hd : ∀ c ∈ digits, c.isDigit) (hne : digits ≠ [])
    (h : Decimal.toDouble ⟨negative, Nat.ofDigitChars 10 (whole ++ digits) 0, -digits.length⟩ =
      .finite x) : Numeral negative x (whole ++ '.' :: digits) := by
  refine ⟨whole, digits, 0, ?_, fun reading rest hr => ?_⟩
  · rwa [nearestDouble, Int.zero_sub]
  · rw [List.append_assoc]
    exact readNumber_fraction hw hd hne hr

section
variable {digits : List Char} {n : Nat} (hw : Whole digits)
include hw

/-- Digits behind a point and zeros. -/
theorem numeral_behind
    (h : Decimal.toDouble ⟨negative, Nat.ofDigitChars 10 digits 0, -(n + digits.length : Nat)⟩ =
      .finite x) : Numeral negative x ('0' :: '.' :: (List.replicate n '0' ++ digits)) := by
  have hdigits : ∀ c ∈ List.replicate n '0' ++ digits, c.isDigit := by
    intro c hc
    rcases List.mem_append.mp hc with hc | hc
    · rw [List.eq_of_mem_replicate hc]
      rfl
    · exact hw.isDigit c hc
  have hzero : Whole ['0'] := whole_single rfl
  refine numeral_fraction hzero hdigits (by simp [hw.ne_nil]) ?_
  have hvalue : Nat.ofDigitChars 10 (['0'] ++ (List.replicate n '0' ++ digits)) 0 =
      Nat.ofDigitChars 10 digits 0 := ofDigitChars_zeros_append (n + 1) digits
  rwa [hvalue, List.length_append, List.length_replicate]

variable (hnonzero : digits ≠ ['0'])
include hnonzero

/-- Digits with zeros behind them, and a point and one more zero. -/
theorem numeral_before
    (h : Decimal.toDouble ⟨negative, Nat.ofDigitChars 10 digits 0, n⟩ = .finite x) :
    Numeral negative x (digits ++ List.replicate n '0' ++ ['.', '0']) := by
  have hmore : Whole (digits ++ List.replicate n '0') := by
    refine hw.append (fun c hc => ?_) fun heq => absurd heq hnonzero
    rw [List.eq_of_mem_replicate hc]
    rfl
  have hzeros : digits ++ List.replicate n '0' ++ ['0'] = digits ++ List.replicate (n + 1) '0' := by
    rw [List.replicate_succ', List.append_assoc]
  have hexponent : (-1 : Int) + (n + 1 : Nat) = n := by omega
  refine numeral_fraction hmore (by simp) (List.cons_ne_nil '0' []) ?_
  rw [hzeros, ofDigitChars_append_zeros]
  refine (Decimal.toDouble_shift negative _ (-1) (n + 1)).trans ?_
  rwa [hexponent]

/-- Digits with a point between them. -/
theorem numeral_between (hn : n + 1 < digits.length)
    (h : Decimal.toDouble ⟨negative, Nat.ofDigitChars 10 digits 0, -(digits.length - (n + 1) : Nat)⟩ =
      .finite x) : Numeral negative x (digits.take (n + 1) ++ '.' :: digits.drop (n + 1)) := by
  have hdigits : ∀ c ∈ digits.drop (n + 1), c.isDigit := fun c hc =>
    hw.isDigit c (List.mem_of_mem_drop hc)
  have hne : digits.drop (n + 1) ≠ [] := by
    rw [Ne, List.drop_eq_nil_iff, Nat.not_le]
    exact hn
  refine numeral_fraction (hw.take n hnonzero) hdigits hne ?_
  rwa [List.take_append_drop, List.length_drop]

end

section
variable {d : Decimal} (h : d.toDouble = .finite x)
include h

/-- A decimal number that is written with a point only. -/
theorem numeral_positional (hc : d.coefficient ≠ 0) :
    Numeral d.negative x (FloatStyle.json.positional (Nat.toDigits 10 d.coefficient) d.lead) := by
  obtain ⟨negative, coefficient, exponent⟩ := d
  have hwhole := whole_toDigits coefficient
  have hvalue := Nat.ofDigitChars_ten_toDigits (n := coefficient)
  have hnonzero : Nat.toDigits 10 coefficient ≠ ['0'] := fun heq => by
    rw [heq] at hvalue
    exact hc hvalue.symm
  simp only [Decimal.lead]
  generalize Nat.toDigits 10 coefficient = digits at hwhole hvalue hnonzero ⊢
  rw [← hvalue] at h
  have hlength : 0 < digits.length := List.length_pos_iff.mpr hwhole.ne_nil
  unfold FloatStyle.positional
  split
  next n hlead =>
    have hexponent : exponent = -(n + digits.length : Nat) := by omega
    exact numeral_behind hwhole (hexponent ▸ h)
  next n hlead =>
    rw [Int.ofNat_eq_natCast] at hlead
    split
    next hshort =>
      have hexponent : exponent = (n + 1 - digits.length : Nat) := by omega
      exact numeral_before hwhole hnonzero (hexponent ▸ h)
    next hlong =>
      have hexponent : exponent = -(digits.length - (n + 1) : Nat) := by omega
      exact numeral_between hwhole hnonzero (Nat.not_le.mp hlong) (hexponent ▸ h)

/-- A decimal number that is written with an exponent. -/
theorem numeral_scientific (hlead : d.lead.natAbs < twoTo 31) :
    Numeral d.negative x (FloatStyle.json.scientific (Nat.toDigits 10 d.coefficient) d.lead) := by
  obtain ⟨negative, coefficient, exponent⟩ := d
  have hwhole := whole_toDigits coefficient
  have hvalue := Nat.ofDigitChars_ten_toDigits (n := coefficient)
  have hexponent : exponent = Decimal.lead ⟨negative, coefficient, exponent⟩ -
      ((Nat.toDigits 10 coefficient).length - 1 : Nat) := by
    have hpos := Nat.length_toDigits_pos (b := 10) (n := coefficient)
    simp only [Decimal.lead]
    omega
  generalize Decimal.lead ⟨negative, coefficient, exponent⟩ = lead at hexponent hlead ⊢
  generalize Nat.toDigits 10 coefficient = digits at hwhole hvalue hexponent ⊢
  rw [hexponent, ← hvalue] at h
  obtain ⟨c, tail, rfl⟩ := List.exists_cons_of_ne_nil hwhole.ne_nil
  cases tail with
  | nil =>
    refine ⟨[c], [], lead, h, fun reading rest hr => ?_⟩
    have htext : FloatStyle.json.scientific [c] lead ++ rest =
        [c] ++ 'e' :: (exponentChars lead ++ rest) := by
      simp [scientific_single]
    rw [htext, readNumber_whole hwhole (noDigit_cons rfl _)]
    exact readExponent_chars hr.noDigit hlead
  | cons second more =>
    have hdigits : ∀ c' ∈ second :: more, c'.isDigit := fun c' hmem =>
      hwhole.isDigit c' (List.mem_cons_of_mem _ hmem)
    refine ⟨[c], second :: more, lead, h, fun reading rest hr => ?_⟩
    have htext : FloatStyle.json.scientific (c :: second :: more) lead ++ rest =
        [c] ++ '.' :: ((second :: more) ++ 'e' :: (exponentChars lead ++ rest)) := by
      simp [scientific_cons]
    rw [htext, readNumber_fraction_exponent (whole_single (hwhole.isDigit c List.mem_cons_self))
      hdigits (List.cons_ne_nil _ _)]
    exact readExponent_chars hr.noDigit hlead

end

/-- The text of a double is a sign, or none, and a numeral. -/
theorem numeral_text (x : Binary64) : ∃ text, Numeral x.negative x text ∧
    FloatStyle.json.text x = if x.negative then '-' :: text else text := by
  obtain ⟨hdouble, hnegative⟩ := x.shortest_toDouble
  by_cases hzero : x.mantissa = 0
  · have hshortest : x.shortest = ⟨x.negative, 0, 0⟩ := if_pos hzero
    refine ⟨['0'] ++ '.' :: ['0'],
      numeral_fraction (whole_single rfl) (by simp) (List.cons_ne_nil '0' []) ?_, ?_⟩
    · rw [← hdouble, hshortest]
      exact (Decimal.toDouble_zero _ _).trans (Decimal.toDouble_zero _ _).symm
    · rw [FloatStyle.text, hshortest]
      cases x.negative <;> decide
  · have hcoefficient : x.shortest.coefficient ≠ 0 := fun heq => by
      rw [Decimal.toDouble, if_pos heq, Double.finite.injEq] at hdouble
      rw [← hdouble] at hzero
      exact hzero rfl
    have hhigh := Decimal.lead_lt hdouble hcoefficient
    have hlow := Decimal.lt_lead hdouble hzero
    have hpower : twoTo 31 = 2147483648 := by decide
    rw [← hnegative]
    refine ⟨_, ?_, rfl⟩
    split
    · exact numeral_positional hdouble hcoefficient
    · exact numeral_scientific hdouble (by omega)

/-- The double that a reader finds in the text of a double. -/
def found? (reading : FloatReading) (x : Binary64) : Option Binary64 :=
  match readScalar reading (FloatStyle.json.text x) with
  | .ok (.number (.float y), _) => some y
  | _ => none

theorem Numeral.starts {text : List Char} (h : Numeral negative x text) : StartsDigit text := by
  obtain ⟨whole, fraction, exponent, hnearest, hread⟩ := h
  have hnumber := (hread nearestDouble [] nofun).trans (readFloat_eq_ok hnearest)
  rw [List.append_nil] at hnumber
  exact startsDigit_of_read hnumber

/-- The text of a double is read as a number, whatever follows it. -/
theorem readScalar_text (x : Binary64) : ∃ whole fraction exponent,
    nearestDouble x.negative whole fraction exponent = .finite x ∧
    ∀ reading rest, Follows rest → readScalar reading (FloatStyle.json.text x ++ rest) =
      readFloat reading x.negative whole fraction exponent rest >>= fun read =>
        .ok (.number read.1, read.2) := by
  obtain ⟨text, hnumeral, htext⟩ := numeral_text x
  have hstarts := hnumeral.starts
  obtain ⟨whole, fraction, exponent, hnearest, hread⟩ := hnumeral
  refine ⟨whole, fraction, exponent, hnearest, fun reading rest hr => ?_⟩
  rw [htext, readScalar_signed hstarts, hread reading rest hr]

/-- What follows the text of a double does not matter for the double that is found. -/
theorem readScalar_float (reading : FloatReading) (x : Binary64) (hr : Follows rest) :
    (readScalar reading (FloatStyle.json.text x ++ rest)).toOption =
      (found? reading x).map fun y => (.number (.float y), rest) := by
  obtain ⟨whole, fraction, exponent, -, hread⟩ := readScalar_text x
  have hempty := hread reading [] nofun
  rw [List.append_nil] at hempty
  rw [found?, hempty, hread reading rest hr, readFloat, readFloat]
  cases reading x.negative whole fraction exponent <;> rfl

/-- An integer is read back, however doubles are read. -/
theorem readScalar_integer (reading : FloatReading) {n : Int} (h : Number.InRange n)
    (hr : Follows rest) : readScalar reading ((Number.integer n h).text ++ rest) =
      .ok (.number (.integer n h), rest) := by
  have hwhole := whole_toDigits n.natAbs
  have hstarts : StartsDigit (Nat.toDigits 10 n.natAbs) := by
    obtain ⟨c, more, hdigits⟩ := List.exists_cons_of_ne_nil hwhole.ne_nil
    exact ⟨c, more, hdigits, hwhole.isDigit c (hdigits ▸ List.mem_cons_self)⟩
  have hscalar := readScalar_signed hstarts reading (n < 0) rest
  rw [readNumber_integer h hr, ok_bind] at hscalar
  simp only [decide_eq_true_eq] at hscalar
  exact hscalar

/-- A reader that takes the nearest double reads every number back. -/
theorem readScalar_nearest (n : Number) : readScalar nearestDouble n.text = .ok (.number n, []) := by
  cases n with
  | integer n h =>
    have hinteger := readScalar_integer nearestDouble h (show Follows [] from nofun)
    rwa [List.append_nil] at hinteger
  | float x =>
    obtain ⟨whole, fraction, exponent, hnearest, hread⟩ := readScalar_text x
    have hfloat := hread nearestDouble [] nofun
    rwa [List.append_nil, readFloat_eq_ok hnearest, ok_bind] at hfloat

theorem found?_nearest (x : Binary64) : found? nearestDouble x = some x := by
  have hfloat : readScalar nearestDouble (FloatStyle.json.text x) = .ok (.number (.float x), []) :=
    readScalar_nearest (.float x)
  rw [found?, hfloat]

end Json

end RecordStore
