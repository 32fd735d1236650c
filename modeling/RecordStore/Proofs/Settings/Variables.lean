import RecordStore.Settings.Layers
import RecordStore.Proofs.Text.Lowercase
import RecordStore.Proofs.Outcome
import Mathlib.Data.List.Induction

/-!
# Variables of the environment

The variables whose names start with a word are set in a table one after another, each under the rest
of its name, and a rest that is a path sets something inside. What the table holds under a key that
is no path is the text of the last variable of that name, unless a path has put an array or a table
there, and these are refused.
-/

namespace RecordStore

namespace Setting

variable {root : Setting} {key name text : String}

theorem member?_cons (first : String × Setting) (rest : List (String × Setting)) (key : String) :
    member? (first :: rest) key = if first.1 = key then some first.2 else member? rest key := by
  rw [member?, List.find?_cons]
  by_cases hkey : first.1 = key <;> simp [hkey, member?]

theorem member?_setMember (members : List (String × Setting)) (name : String) (value : Setting)
    (key : String) : member? (setMember members name value) key =
      if name = key then some value else member? members key := by
  induction members with
  | nil => exact member?_cons (name, value) [] key
  | cons first rest ih =>
    rw [setMember]
    split
    next hfirst =>
      rw [member?_cons, member?_cons, hfirst]
      split <;> rfl
    next hfirst =>
      rw [member?_cons, member?_cons, ih]
      by_cases hkey : first.1 = key
      · have hne : name ≠ key := fun heq => hfirst (hkey.trans heq.symm)
        rw [if_pos hkey, if_pos hkey, if_neg hne]
      · rw [if_neg hkey, if_neg hkey]

/-! ## Paths -/

/-- No steps follow only where nothing follows. -/
theorem pathTail_eq_nil {fuel : Nat} {rest : List Char} (h : pathTail fuel rest = some []) :
    rest = [] := by
  unfold pathTail at h
  simp only at h
  split at h
  next => rfl
  next => cases h
  next =>
    split at h
    · cases h
    · simp at h
  next =>
    split at h
    · split at h
      · cases h
      · simp at h
    · cases h
  next => cases h

/-- A path has one step, which is all of the key, or more steps. -/
theorem pathOf_cases (key : String) : pathOf key = [.key key] ∨
    ∃ name step steps, pathOf key = .key name :: step :: steps := by
  unfold pathOf
  simp only
  split
  next steps hsteps =>
    cases steps with
    | nil =>
      left
      split at hsteps
      · cases hsteps
      · have hrest := pathTail_eq_nil hsteps
        have hname := List.takeWhile_append_dropWhile (p := isPathChar) (l := key.toList)
        rw [hrest, List.append_nil] at hname
        rw [hname, String.ofList_toList]
    | cons step steps => exact .inr ⟨_, step, steps, rfl⟩
  next => exact .inl rfl

/-- A table or an array: what stands where a path has set something inside. -/
inductive Composite : Setting → Prop
  | array (items : List Setting) : Composite (.array items)
  | table (members : List (String × Setting)) : Composite (.table members)

theorem insert_text (root : Setting) (key text : String) : root.insert key (.text text) =
    .table (setMember root.members (lowercase key) (.text text)) := by
  rw [insert]

theorem composite_setPath (text : String) (step : PathStep) (steps : List PathStep)
    (root : Setting) : Composite (setPath (.text text) (step :: steps) root) := by
  cases step with
  | key name =>
    cases steps with
    | nil =>
      rw [setPath, insert_text]
      exact .table _
    | cons next more => exact .table _
  | index n => cases steps <;> cases root <;> exact .array _

/-! ## What the variables leave under a key -/

/-- What stands under a key is the text of a variable, or is composite, or is missing where the
variable is not set. -/
inductive Delivered (given : Option String) : Option Setting → Prop
  | unset (h : given = none) : Delivered given none
  | text {text : String} (h : given = some text) : Delivered given (some (.text text))
  | composite {value : Setting} (h : Composite value) : Delivered given (some value)

/-- One more variable, with a name in lower case, is set. -/
theorem Delivered.setPath {given : Option String} (hkey : pathOf key = [.key key])
    (hname : lowercase name = name) (h : Delivered given (member? root.members key)) :
    Delivered (if name = key then some text else given)
      (member? (setPath (.text text) (pathOf name) root).members key) := by
  rcases pathOf_cases name with hpath | ⟨first, step, steps, hpath⟩
  · rw [hpath, Setting.setPath, insert_text, hname]
    change Delivered _ (member? (setMember root.members name (.text text)) key)
    rw [member?_setMember]
    split
    · exact .text rfl
    · exact h
  · have hne : name ≠ key := by
      rintro rfl
      rw [hkey] at hpath
      cases hpath
    rw [if_neg hne, hpath]
    change Delivered _ (member? (setMember root.members (lowercase first) _) key)
    rw [member?_setMember]
    split
    · exact .composite (composite_setPath text step steps _)
    · exact h

theorem ofMembers_append (members more : List (String × Setting)) : ofMembers (members ++ more) =
    more.foldl (fun root v => setPath v.2 (pathOf v.1) root) (ofMembers members) := by
  rw [ofMembers, List.foldl_append, ofMembers]

end Setting

/-- The value of a variable. Names are compared without regard to case, and of several variables
with the name the last one counts. -/
def Environment.value? (environment : Environment) (name : String) : Option String :=
  (environment.reverse.find? fun v => lowercase v.1 = lowercase name).map (·.2)

theorem Environment.value?_append (environment : Environment) (v : String × String)
    (name : String) : value? (environment ++ [v]) name =
      if lowercase v.1 = lowercase name then some v.2 else environment.value? name := by
  rw [value?, List.reverse_append, List.reverse_singleton, List.singleton_append, List.find?_cons]
  by_cases h : lowercase v.1 = lowercase name <;> simp [h, value?]

namespace Settings

open Setting

variable {word key name : String}

theorem variablesUnder_append (word : String) (environment : Environment) (v : String × String) :
    variablesUnder word (environment ++ [v]) =
      variablesUnder word environment ++ variablesUnder word [v] := List.filterMap_append

/-- A variable whose name starts with the word goes by the rest of its name, in lower case. -/
theorem variablesUnder_of_start {given : String} (text : String)
    (h : (lowercase (word ++ "_")).toList <+: (lowercase given).toList) :
    ∃ short, lowercase short = short ∧
      (lowercase given).toList = (lowercase (word ++ "_")).toList ++ short.toList ∧
      variablesUnder word [(given, text)] = [(short, .text text)] := by
  obtain ⟨rest, hrest⟩ := h
  have hshort : rest = (lowercase given).toList.drop (lowercase (word ++ "_")).toList.length := by
    rw [← hrest, List.drop_left]
  refine ⟨String.ofList rest, ?_, ?_, ?_⟩
  · rw [hshort]
    exact lowercase_drop given _
  · rw [String.toList_ofList, hrest]
  · have hprefix := List.isPrefixOf_iff_prefix.mpr ⟨rest, hrest⟩
    simp only [variablesUnder, List.filterMap_cons, hprefix, if_true, List.filterMap_nil, ← hshort]

theorem variablesUnder_of_other {given : String} (text : String)
    (h : ¬ (lowercase (word ++ "_")).toList <+: (lowercase given).toList) :
    variablesUnder word [(given, text)] = [] := by
  have hprefix : ¬ (lowercase (word ++ "_")).toList.isPrefixOf (lowercase given).toList := fun hp =>
    h (List.isPrefixOf_iff_prefix.mp hp)
  simp only [variablesUnder, List.filterMap_cons, if_neg hprefix, List.filterMap_nil]

/-- The variables under a word leave the text of a variable under the rest of its name. -/
theorem delivered_value? (hkey : pathOf key = [.key key])
    (hname : (lowercase name).toList = (lowercase (word ++ "_")).toList ++ key.toList)
    (environment : Environment) : Delivered (environment.value? name)
      (member? (ofMembers (variablesUnder word environment)).members key) := by
  -- A later variable takes the place of an earlier one, so the list is taken apart at its end.
  induction environment using List.reverseRecOn with
  | nil => exact .unset rfl
  | append_singleton environment v ih =>
    obtain ⟨given, text⟩ := v
    rw [Environment.value?_append, variablesUnder_append, ofMembers_append]
    by_cases hstart : (lowercase (word ++ "_")).toList <+: (lowercase given).toList
    · obtain ⟨short, hlower, hgiven, hunder⟩ := variablesUnder_of_start text hstart
      have hsame : lowercase given = lowercase name ↔ short = key := by
        rw [← String.toList_inj, ← String.toList_inj, hname, hgiven, List.append_cancel_left_eq]
      rw [hunder, if_congr hsame rfl rfl]
      exact ih.setPath hkey hlower
    · have hne : lowercase given ≠ lowercase name := fun heq =>
        hstart (heq ▸ hname ▸ List.prefix_append _ _)
      rw [variablesUnder_of_other text hstart, if_neg hne]
      exact ih

/-- What is read of the variables, if they are accepted, is the variable itself. -/
theorem textOf?_eq_ok (name : String) (hkey : pathOf key = [.key key])
    (hname : (lowercase name).toList = (lowercase (word ++ "_")).toList ++ key.toList)
    {environment : Environment} {found : Option String}
    (h : textOf? (variablesUnder word environment) key = .ok found) :
    found = environment.value? name := by
  have hdelivered := delivered_value? hkey hname environment
  rw [textOf?] at h
  generalize member? (ofMembers (variablesUnder word environment)).members key = value
    at h hdelivered
  cases hdelivered with
  | unset hunset =>
    cases h
    exact hunset.symm
  | text htext =>
    cases h
    exact htext.symm
  | composite hcomposite => cases hcomposite <;> cases h

end Settings

end RecordStore
