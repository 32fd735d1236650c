import RecordStore.CommandLine.Arguments
import RecordStore.Proofs.Number.Integers
import RecordStore.Proofs.Outcome

/-!
# Reading arguments

What one argument adds to the values that were read before it, and what a run of arguments adds. An
option is written with its value attached to its name; a positional value is written as it is, behind
`--` or where it does not start with a hyphen.
-/

namespace RecordStore

/-! ## Written values -/

/-- The values that an option or a position of a kind may have. -/
inductive ValueKind.Takes : ValueKind → ArgumentValue → Prop
  | text (s : String) : Takes .text (.text s)
  | id (n : Int64) : Takes .id (.id n)
  | count {n : Nat} (h : n ≤ maxWord) : Takes .count (.count n)

/-- The values that an option may have: a flag has none but its presence. -/
inductive Effect.Takes : Effect → ArgumentValue → Prop
  | value {kind : ValueKind} {value : ArgumentValue} (h : kind.Takes value) :
    Takes (.value kind) value
  | flag : Takes .flag .flag

namespace ArgumentValue

/-- A value as it is written; numbers are in decimal. -/
def written : ArgumentValue → String
  | .flag => ""
  | .text s => s
  | .id n => toString n
  | .count n => toString n

/-- An option as it is written: a flag by its name alone, any other with its value attached. -/
def writtenOption (name : String) : ArgumentValue → String
  | .flag => "--" ++ name
  | value => "--" ++ name ++ "=" ++ value.written

end ArgumentValue

/-- Every value is read back from what is written. -/
theorem ValueKind.Takes.read {kind : ValueKind} {value : ArgumentValue} (h : kind.Takes value) :
    kind.read value.written = .ok value := by
  cases h with
  | text s => rfl
  | id n =>
    have hread : integerOfText? (toString n).toList = some n.toInt := integerOfText?_toString n.toInt
    have hfits : FitsInt64 n.toInt := by
      have hlow := n.le_toInt
      have hhigh := n.toInt_lt
      unfold FitsInt64
      omega
    simp only [ValueKind.read, ArgumentValue.written, hread, if_pos hfits, Int64.ofInt_toInt]
  | @count n hn =>
    have hread : integerOfText? (toString n).toList = some (n : Int) := integerOfText?_toString n
    have hplain : ¬ "-".toList.isPrefixOf (toString n).toList = true := by
      have hhead : ¬ (toString n).toList.head? = some '-' := by
        rw [show toString n = toString (n : Int) from rfl, head?_toString]
        omega
      intro hprefix
      obtain ⟨rest, hrest⟩ := List.isPrefixOf_iff_prefix.mp hprefix
      exact hhead (by rw [← hrest]; rfl)
    have hsmall : ¬ (maxWord : Int) < n := by omega
    simp only [ValueKind.read, ArgumentValue.written, hread, hplain, hsmall, Bool.false_eq_true,
      or_self, if_false, Int.toNat_natCast]

/-- A program or a subcommand has an option of this name, which may have this value. -/
structure Grammar.Offers (g : Grammar) (name : String) (value : ArgumentValue) : Prop where
  named : name.toList ≠ [] ∧ '=' ∉ name.toList
  option : ∃ o, g.options.find? (·.long = name) = some o ∧ o.effect.Takes value

namespace Reading

variable {g : Grammar} {r : Reading} {name : String} {kind : ValueKind} {value : ArgumentValue}
variable {found values : List (String × ArgumentValue)}

/-! ## One argument -/

theorem value?_of_new (hnew : ∀ v ∈ r.found, v.1 ≠ name) : r.value? name = none := by
  rw [value?, List.find?_eq_none.mpr (by simpa using hnew)]
  rfl

theorem add_of_new (hnew : ∀ v ∈ r.found, v.1 ≠ name) :
    r.add name value = .ok { r with found := r.found ++ [(name, value)] } := by
  rw [add, value?_of_new hnew]
  rfl

theorem settle_of_takes (hnew : ∀ v ∈ r.found, v.1 ≠ name) (h : kind.Takes value) :
    r.settle ⟨name, kind, some value.written⟩ =
      .ok { r with found := r.found ++ [(name, value)] } := by
  simp only [settle, value?_of_new hnew, Option.isSome_none, Bool.false_eq_true, if_false, h.read,
    ok_bind, add_of_new hnew]

theorem takeOption_of_takes {o : OptionSpec} (hpending : r.pending = none)
    (hnew : ∀ v ∈ r.found, v.1 ≠ o.long) (h : o.effect.Takes value) :
    r.takeOption o (if value = .flag then none else some value.written) =
      .ok { r with found := r.found ++ [(o.long, value)] } := by
  have hresolve : r.resolve = .ok r := by rw [resolve, hpending]
  generalize heffect : o.effect = effect at h
  cases h with
  | @value kind _ hkind =>
    have hvalue : value ≠ .flag := by rintro rfl; cases hkind
    simp only [takeOption, heffect, if_neg hvalue, hresolve, ok_bind, settle_of_takes hnew hkind]
  | flag => simp only [takeOption, heffect, if_true, hresolve, ok_bind, add_of_new hnew]

/-- The characters of a written option: two hyphens, the name, and what is attached to it. -/
theorem toList_writtenOption (name : String) (value : ArgumentValue) :
    (value.writtenOption name).toList = '-' :: '-' :: (name.toList ++
      if value = .flag then [] else '=' :: value.written.toList) := by
  cases value <;> simp [ArgumentValue.writtenOption]

/-- A written option is read as its value. -/
theorem takeArgument_option (hpending : r.pending = none) (hawaiting : r.awaiting = none)
    (hnew : ∀ v ∈ r.found, v.1 ≠ name) (h : g.Offers name value) :
    r.takeArgument g (value.writtenOption name) =
      .ok { r with found := r.found ++ [(name, value)] } := by
  obtain ⟨⟨hname, hequals⟩, o, hfind, htakes⟩ := h
  obtain rfl : o.long = name := by simpa using List.find?_some hfind
  have hbefore : ∀ c ∈ o.long.toList, decide (c ≠ '=') = true := fun c hc =>
    decide_eq_true fun heq => hequals (heq ▸ hc)
  obtain ⟨c, rest, hcons⟩ := List.exists_cons_of_ne_nil hname
  have hlong : r.takeArgument g (value.writtenOption o.long) = r.takeLong g (o.long.toList ++
      if value = .flag then [] else '=' :: value.written.toList) := by
    simp only [takeArgument, hawaiting, Option.any_none, Bool.false_eq_true, if_false,
      toList_writtenOption, hcons, List.cons_append]
  have hattached : r.takeLong g (o.long.toList ++
      if value = .flag then [] else '=' :: value.written.toList) =
        r.takeOption o (if value = .flag then none else some value.written) := by
    unfold takeLong
    rw [List.takeWhile_append_of_pos hbefore, List.dropWhile_append_of_pos hbefore]
    split
    · simp only [List.takeWhile_nil, List.append_nil, String.ofList_toList, hfind,
        List.dropWhile_nil]
    · simp [hfind]
  rw [hlong, hattached, takeOption_of_takes hpending hnew htakes]

/-- An argument that does not start with a hyphen is a positional value. -/
theorem takeArgument_plain {text : String} (hawaiting : r.awaiting = none)
    (h : text.toList.head? ≠ some '-') : r.takeArgument g text = r.takePositional g text := by
  simp only [takeArgument, takePlain, hawaiting, Option.any_none, Bool.false_eq_true, if_false]
  split
  next heq => simp [heq] at h
  next heq => simp [heq] at h
  next heq => simp [heq] at h
  next => rfl

/-- A hyphen and digits are taken for options in short. -/
theorem takeArgument_negative (hawaiting : r.awaiting = none)
    (hshort : ∀ o ∈ g.options, ∀ c ∈ o.short, c.isDigit = false) {n : Int} (hn : n < 0) :
    r.takeArgument g (toString n) = .error .unknownArgument := by
  have htext : (toString n).toList = '-' :: Nat.toDigits 10 n.natAbs := by
    rw [toList_toString, if_pos hn]
  obtain ⟨c, rest, hdigits⟩ :=
    List.exists_cons_of_ne_nil (Nat.toDigits_ne_nil (b := 10) (n := n.natAbs))
  have hc : c.isDigit = true := isDigit_toDigits n.natAbs c (hdigits ▸ List.mem_cons_self)
  have hnone : g.options.find? (·.short = some c) = none := by
    refine List.find?_eq_none.mpr fun o ho heq => ?_
    have hfalse := hshort o ho c (by simpa using heq)
    rw [hc] at hfalse
    cases hfalse
  have hhyphen : c ≠ '-' := by
    rintro rfl
    exact absurd hc (by decide)
  simp only [takeArgument, hawaiting, Option.any_none, Bool.false_eq_true, if_false, htext,
    hdigits]
  split
  next heq =>
    cases heq
    exact absurd rfl hhyphen
  next heq =>
    cases heq
    exact absurd rfl hhyphen
  next heq =>
    cases heq
    rw [takeLetters, hnone]
  next hno => exact absurd rfl (hno c rest)

/-! ## What was read -/

/-- What the reading has found, the value that is still to be checked included. -/
structure Holds (r : Reading) (found : List (String × ArgumentValue)) : Prop where
  awaiting : r.awaiting = none
  resolve : r.resolve = .ok { r with found := found, pending := none }

theorem holds_of_idle (hpending : r.pending = none) (hawaiting : r.awaiting = none) :
    r.Holds r.found := by
  refine ⟨hawaiting, ?_⟩
  rw [Reading.resolve, hpending]
  cases r
  cases hpending
  rfl

/-- A positional value is held when it was read. -/
theorem Holds.takePositional (h : r.Holds found) {rest : List (String × ValueKind)}
    (hnext : r.positionals = (name, kind) :: rest) (hnew : ∀ v ∈ found, v.1 ≠ name)
    (htakes : kind.Takes value) :
    ∃ r', r.takePositional g value.written = .ok r' ∧ r'.Holds (found ++ [(name, value)]) ∧
      r'.positionals = rest ∧ r'.trailing = r.trailing := by
  let last : PendingValue := ⟨name, kind, some value.written⟩
  refine ⟨{ r with found := found, pending := some last, positionals := rest }, ?_,
    ⟨h.awaiting, ?_⟩, rfl, rfl⟩
  · simp only [Reading.takePositional, hnext, h.resolve, ok_bind, last]
  · have hsettle := settle_of_takes
      (r := { r with found := found, pending := none, awaiting := none, positionals := rest })
      hnew htakes
    simp only [Reading.resolve, hsettle, h.awaiting, last]

/-! ## Runs of arguments -/

theorem takeAll_argument {text : String} (htrailing : r.trailing = false)
    (hplain : text ∉ g.subcommands) (rest : List String) :
    r.takeAll g (text :: rest) = (do (← r.takeArgument g text).takeAll g rest) := by
  rw [takeAll, htrailing, if_neg Bool.false_ne_true, if_neg fun h => hplain h.2]

/-- Behind `--` every argument is positional. -/
theorem takeAll_trailing (hawaiting : r.awaiting = none) (htrailing : r.trailing = false)
    (hplain : "--" ∉ g.subcommands) (rest : List String) :
    r.takeAll g ("--" :: rest) = { r with trailing := true }.takeAll g rest := by
  have hread : r.takeArgument g "--" = .ok { r with trailing := true } := by
    simp [takeArgument, hawaiting]
  rw [takeAll_argument htrailing hplain, hread, ok_bind]

/-- The name of a subcommand ends the reading. -/
theorem takeAll_subcommand (hawaiting : r.awaiting = none) (htrailing : r.trailing = false)
    (h : name ∈ g.subcommands) (rest : List String) :
    r.takeAll g (name :: rest) = .ok (r, some (name, rest)) := by
  rw [takeAll, htrailing, if_neg Bool.false_ne_true, if_pos ⟨hawaiting, h⟩]

/-- Written options are read one after another. -/
theorem takeAll_options (hpending : r.pending = none) (hawaiting : r.awaiting = none)
    (htrailing : r.trailing = false) (hsubcommands : ∀ s ∈ g.subcommands, s.toList.head? ≠ some '-')
    (hdistinct : (r.found ++ values).Pairwise fun a b => a.1 ≠ b.1)
    (hoffers : ∀ v ∈ values, g.Offers v.1 v.2) (rest : List String) :
    r.takeAll g (values.map (fun v => v.2.writtenOption v.1) ++ rest) =
      { r with found := r.found ++ values }.takeAll g rest := by
  induction values generalizing r with
  | nil =>
    rw [List.append_nil]
    rfl
  | cons v values ih =>
    have hplain : v.2.writtenOption v.1 ∉ g.subcommands := fun hmem =>
      hsubcommands _ hmem (by rw [toList_writtenOption]; rfl)
    have hnew : ∀ earlier ∈ r.found, earlier.1 ≠ v.1 := fun earlier hearlier =>
      (List.pairwise_append.mp hdistinct).2.2 earlier hearlier v List.mem_cons_self
    rw [List.map_cons, List.cons_append, takeAll_argument htrailing hplain,
      takeArgument_option hpending hawaiting hnew (hoffers v List.mem_cons_self), ok_bind]
    rw [List.append_cons] at hdistinct
    rw [List.append_cons r.found v values]
    exact ih (r := { r with found := r.found ++ [v] }) hpending hawaiting htrailing hdistinct
      fun w hw => hoffers w (List.mem_cons_of_mem _ hw)

/-- Positional values are read one after another, behind `--` or if none of them starts with a
hyphen. -/
theorem Holds.takeAll_positionals (h : r.Holds found) (hsubcommands : g.subcommands = [])
    (htakes : List.Forall₂ (fun p v => p.1 = v.1 ∧ p.2.Takes v.2) r.positionals values)
    (hdistinct : (found ++ values).Pairwise fun a b => a.1 ≠ b.1)
    (hplain : r.trailing = true ∨ ∀ v ∈ values, v.2.written.toList.head? ≠ some '-') :
    ∃ r', r.takeAll g (values.map fun v => v.2.written) = .ok (r', none) ∧
      r'.Holds (found ++ values) := by
  induction values generalizing r found with
  | nil =>
    rw [List.append_nil]
    exact ⟨r, rfl, h⟩
  | cons v values ih =>
    cases hpositionals : r.positionals with
    | nil =>
      rw [hpositionals] at htakes
      cases htakes
    | cons p rest =>
      rw [hpositionals] at htakes
      obtain ⟨⟨hname, htake⟩, hrest⟩ := List.forall₂_cons.mp htakes
      have hnew : ∀ earlier ∈ found, earlier.1 ≠ p.1 := fun earlier hearlier =>
        hname ▸ (List.pairwise_append.mp hdistinct).2.2 earlier hearlier v List.mem_cons_self
      obtain ⟨r', hread, hholds, hleft, htrailing⟩ :=
        h.takePositional (g := g) hpositionals hnew htake
      have hstep : r.takeAll g (v.2.written :: values.map fun v => v.2.written) =
          r'.takeAll g (values.map fun v => v.2.written) := by
        rcases hplain with hbehind | hplain
        · rw [takeAll, if_pos hbehind, hread, ok_bind]
        · cases hbehind : r.trailing with
          | true => rw [takeAll, if_pos hbehind, hread, ok_bind]
          | false =>
            rw [takeAll_argument hbehind (by simp [hsubcommands]),
              takeArgument_plain h.awaiting (hplain v List.mem_cons_self), hread, ok_bind]
      rw [hname] at hholds
      rw [List.append_cons] at hdistinct ⊢
      rw [List.map_cons, hstep]
      refine ih hholds (hleft ▸ hrest) hdistinct ?_
      rw [htrailing]
      exact hplain.imp_right fun hall w hw => hall w (List.mem_cons_of_mem _ hw)

end Reading

end RecordStore
