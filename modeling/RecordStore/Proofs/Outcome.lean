import Mathlib.Data.List.Forall2
import RecordStore.Number.Power

/-!
# Outcomes

What it means for a chain of refusable steps to succeed. Every later module takes such chains apart
with these lemmas and never looks at the definition of a bind.
-/

namespace RecordStore

variable {ε ε' α β : Type}

theorem ok_bind (a : α) (f : α → Except ε β) : (Except.ok a >>= f) = f a := rfl

theorem error_bind (e : ε) (f : α → Except ε β) : (Except.error e >>= f) = .error e := rfl

theorem toOption_bind (x : Except ε α) (f : α → Except ε β) :
    (x >>= f).toOption = x.toOption.bind fun a => (f a).toOption := by
  cases x <;> rfl

theorem toOption_eq_some {x : Except ε α} {a : α} : x.toOption = some a ↔ x = .ok a := by
  cases x <;> simp [Except.toOption]

theorem bind_eq_ok {x : Except ε α} {f : α → Except ε β} {b : β} :
    (x >>= f) = .ok b ↔ ∃ a, x = .ok a ∧ f a = .ok b := by
  cases x with
  | error e => simp [error_bind]
  | ok a => simp [ok_bind]

/-- What follows a check runs if the check passes. -/
theorem check_eq_ok {x : Except ε Unit} {f : Unit → Except ε β} {b : β} :
    (x >>= f) = .ok b ↔ x = .ok () ∧ f () = .ok b := by
  cases x with
  | error e => simp [error_bind]
  | ok a => simp [ok_bind]

theorem bind_eq_error {x : Except ε α} {f : α → Except ε β} {e : ε} :
    (x >>= f) = .error e ↔ x = .error e ∨ ∃ a, x = .ok a ∧ f a = .error e := by
  cases x with
  | error cause => simp [error_bind]
  | ok a => simp [ok_bind]

/-- A chain succeeds where another does, if its steps succeed where those of the other do. -/
theorem bind_imp {x y : Except ε α} {f g : α → Except ε β} {b : β}
    (hxy : ∀ a, x = .ok a → y = .ok a) (hfg : ∀ a, f a = .ok b → g a = .ok b)
    (h : (x >>= f) = .ok b) : (y >>= g) = .ok b := by
  obtain ⟨a, ha, hb⟩ := bind_eq_ok.mp h
  exact bind_eq_ok.mpr ⟨a, hxy a ha, hfg a hb⟩

/-- A chain whose second step always succeeds succeeds where its first step does. -/
theorem exists_bind_eq_ok {x : Except ε α} {f : α → Except ε β} (hf : ∀ a, ∃ b, f a = .ok b) :
    (∃ b, (x >>= f) = .ok b) ↔ ∃ a, x = .ok a := by
  cases x with
  | error e => simp [error_bind]
  | ok a => simpa [ok_bind] using hf a

theorem map_ok (a : α) (f : α → β) : (Except.ok a : Except ε α).map f = .ok (f a) := rfl

theorem map_eq_ok {x : Except ε α} {f : α → β} {b : β} :
    x.map f = .ok b ↔ ∃ a, x = .ok a ∧ f a = b := by
  cases x with
  | error e => simp [Except.map]
  | ok a => simp [map_ok]

theorem map_eq_error {x : Except ε α} {f : α → β} {e : ε} :
    x.map f = .error e ↔ x = .error e := by
  cases x with
  | error cause => simp [Except.map]
  | ok a => simp [map_ok]

/-- What two chains give looks alike, if it does for their first steps and, from alike results on, for
their second steps. -/
theorem map_bind_congr {γ δ : Type} {x y : Except ε α} {f g : α → Except ε β} {k : α → γ} {l : β → δ}
    (hxy : x.map k = y.map k) (hfg : ∀ a b, k a = k b → (f a).map l = (g b).map l) :
    (x >>= f).map l = (y >>= g).map l := by
  cases x with
  | error e =>
    cases y with
    | error e' =>
      cases hxy
      rfl
    | ok b => cases hxy
  | ok a =>
    cases y with
    | error e' => cases hxy
    | ok b => exact hfg a b (Except.ok.inj hxy)

/-- What is read off results that look alike is alike. -/
theorem map_map (x : Except ε α) {γ : Type} (f : α → β) (g : β → γ) :
    (x.map f).map g = x.map fun a => g (f a) := by
  cases x <;> rfl

theorem mapError_ok (a : α) (f : ε → ε') : (Except.ok a).mapError f = .ok a := rfl

theorem mapError_error (e : ε) (f : ε → ε') :
    (Except.error e : Except ε α).mapError f = .error (f e) := rfl

theorem mapError_map (x : Except ε α) (f : ε → ε') (g : α → β) :
    (x.mapError f).map g = (x.map g).mapError f := by
  cases x <;> rfl

theorem mapError_eq_ok {x : Except ε α} {f : ε → ε'} {a : α} :
    x.mapError f = .ok a ↔ x = .ok a := by
  cases x with
  | error e => simp [mapError_error]
  | ok a => simp [mapError_ok]

theorem mapError_eq_error {x : Except ε α} {f : ε → ε'} {e : ε'} :
    x.mapError f = .error e ↔ ∃ cause, x = .error cause ∧ f cause = e := by
  cases x with
  | error cause => simp [mapError_error]
  | ok a => simp [mapError_ok]

/-- A step fails exactly if it gives no result. -/
theorem exists_error_iff {x : Except ε α} : (∃ e, x = .error e) ↔ ¬ ∃ a, x = .ok a := by
  cases x with
  | ok a => simp
  | error e => simp

/-- A condition on every element of a list and those before it, for a list with a first element. -/
theorem forall_split_cons {P : List α → α → Prop} {a : α} {l : List α} :
    (∀ before x after, a :: l = before ++ x :: after → P before x) ↔
      P [] a ∧ ∀ before x after, l = before ++ x :: after → P (a :: before) x := by
  constructor
  · intro h
    exact ⟨h [] a l rfl, fun before x after hl => h (a :: before) x after (congrArg (a :: ·) hl)⟩
  · rintro ⟨hfirst, hrest⟩ before x after heq
    cases before with
    | nil =>
      cases heq
      exact hfirst
    | cons b before =>
      obtain ⟨rfl, hl⟩ := List.cons.inj heq
      exact hrest before x after hl

theorem forall_mem_left {R : α → β → Prop} {as : List α} {bs : List β} (h : List.Forall₂ R as bs)
    {P : α → Prop} (hP : ∀ a b, R a b → P a) : ∀ a ∈ as, P a :=
  ((List.forall₂_and_left _ _).mp (h.imp fun a b hab => ⟨hP a b hab, hab⟩)).1

theorem forall_mem_right {R : α → β → Prop} {as : List α} {bs : List β} (h : List.Forall₂ R as bs)
    {P : β → Prop} (hP : ∀ a b, R a b → P b) : ∀ b ∈ bs, P b :=
  forall_mem_left h.flip fun b a => hP a b

theorem forall₂_and_right {R : α → β → Prop} {as : List α} {bs : List β} {P : β → Prop}
    (hP : ∀ b ∈ bs, P b) (h : List.Forall₂ R as bs) :
    List.Forall₂ (fun a b => P b ∧ R a b) as bs :=
  ((List.forall₂_and_left _ _).mpr ⟨hP, h.flip⟩).flip

/-- Values that are each read back from what is written are read back together. -/
theorem mapM_map_of_found {γ : Type} {read : β → Option γ} {write : α → β} {found : α → γ}
    {values : List α} (h : ∀ value ∈ values, read (write value) = some (found value)) :
    (values.map write).mapM read = some (values.map found) := by
  induction values with
  | nil => rfl
  | cons first rest ih =>
    rw [List.map_cons, List.mapM_cons, h first List.mem_cons_self,
      ih fun value hvalue => h value (List.mem_cons_of_mem _ hvalue)]
    rfl

theorem mapM_map_of_read {read : β → Option α} {write : α → β} {values : List α}
    (h : ∀ value ∈ values, read (write value) = some value) :
    (values.map write).mapM read = some values :=
  (mapM_map_of_found h).trans (congrArg some (List.map_id values))

/-- A traversal gives the results of its steps, one for each element. -/
theorem mapM_eq_ok_iff {f : α → Except ε β} {as : List α} {bs : List β} :
    as.mapM f = .ok bs ↔ List.Forall₂ (fun a b => f a = .ok b) as bs := by
  induction as generalizing bs with
  | nil => simp [pure, Except.pure, eq_comm]
  | cons a rest ih =>
    simp only [List.mapM_cons, bind_eq_ok, ih, List.forall₂_cons_left_iff]
    constructor
    · rintro ⟨b, hb, more, hmore, heq⟩
      cases heq
      exact ⟨b, more, hb, hmore, rfl⟩
    · rintro ⟨b, more, hb, hmore, rfl⟩
      exact ⟨b, hb, more, hmore, rfl⟩

theorem mapM_length {f : α → Except ε β} {as : List α} {bs : List β} (h : as.mapM f = .ok bs) :
    bs.length = as.length := by
  induction as generalizing bs with
  | nil =>
    simp only [List.mapM_nil, pure, Except.pure, Except.ok.injEq] at h
    exact h ▸ rfl
  | cons a rest ih =>
    simp only [List.mapM_cons, bind_eq_ok, pure, Except.pure, Except.ok.injEq] at h
    obtain ⟨_, _, _, hrest, rfl⟩ := h
    rw [List.length_cons, ih hrest, List.length_cons]

theorem mapM_ne_nil {f : α → Except ε β} {as : List α} {bs : List β} (h : as.mapM f = .ok bs)
    (hne : as ≠ []) : bs ≠ [] := by
  intro heq
  have hlength := mapM_length h
  rw [heq, List.length_nil] at hlength
  exact hne (List.length_eq_zero_iff.mp hlength.symm)

theorem mapM_isOk {f : α → Except ε β} {as : List α} (h : ∀ a ∈ as, ∃ b, f a = .ok b) :
    ∃ bs, as.mapM f = .ok bs := by
  induction as with
  | nil => exact ⟨[], rfl⟩
  | cons a rest ih =>
    obtain ⟨b, hb⟩ := h a List.mem_cons_self
    obtain ⟨bs, hbs⟩ := ih fun other hother => h other (List.mem_cons_of_mem _ hother)
    refine ⟨b :: bs, ?_⟩
    rw [List.mapM_cons, hb, ok_bind, hbs, ok_bind]
    rfl

theorem forM_eq_ok {f : α → Except ε Unit} {as : List α} :
    as.forM f = .ok () ↔ ∀ a ∈ as, f a = .ok () := by
  induction as with
  | nil => simp [List.forM, pure, Except.pure]
  | cons a rest ih =>
    rw [List.forM, bind_eq_ok, List.forall_mem_cons]
    constructor
    · rintro ⟨⟨⟩, ha, hrest⟩
      exact ⟨ha, ih.mp hrest⟩
    · rintro ⟨ha, hrest⟩
      exact ⟨(), ha, ih.mpr hrest⟩

/-- A check of several things fails at one of them. -/
theorem forM_eq_error {f : α → Except ε Unit} {as : List α} {e : ε} (h : as.forM f = .error e) :
    ∃ a ∈ as, f a = .error e := by
  induction as with
  | nil => cases h
  | cons a rest ih =>
    rcases bind_eq_error.mp h with hfirst | ⟨_, _, hrest⟩
    · exact ⟨a, List.mem_cons_self, hfirst⟩
    · obtain ⟨b, hb, hfailed⟩ := ih hrest
      exact ⟨b, List.mem_cons_of_mem _ hb, hfailed⟩

theorem mapM_imp {f g : α → Except ε β} (hfg : ∀ a b, f a = .ok b → g a = .ok b) {as : List α}
    {bs : List β} (h : as.mapM f = .ok bs) : as.mapM g = .ok bs := by
  induction as generalizing bs with
  | nil => exact h
  | cons a rest ih =>
    simp only [List.mapM_cons, bind_eq_ok] at h
    obtain ⟨b, hb, more, hmore, hbs⟩ := h
    rw [List.mapM_cons, hfg a b hb, ok_bind, ih hmore, ok_bind, hbs]

theorem mapM_append {f : α → Except ε β} {as as' : List α} {bs bs' : List β}
    (h : as.mapM f = .ok bs) (h' : as'.mapM f = .ok bs') :
    (as ++ as').mapM f = .ok (bs ++ bs') := by
  rw [List.mapM_append, h, h']
  rfl

theorem mem_of_mapM {f : α → Except ε β} {as : List α} {bs : List β} {b : β}
    (h : as.mapM f = .ok bs) (hb : b ∈ bs) : ∃ a ∈ as, f a = .ok b := by
  induction as generalizing bs with
  | nil =>
    simp only [List.mapM_nil, pure, Except.pure, Except.ok.injEq] at h
    exact absurd (h ▸ hb) List.not_mem_nil
  | cons a rest ih =>
    simp only [List.mapM_cons, bind_eq_ok, pure, Except.pure, Except.ok.injEq] at h
    obtain ⟨first, hfirst, more, hmore, rfl⟩ := h
    rcases List.mem_cons.mp hb with rfl | hb
    · exact ⟨a, List.mem_cons_self, hfirst⟩
    · obtain ⟨other, ho, hf⟩ := ih hmore hb
      exact ⟨other, List.mem_cons_of_mem _ ho, hf⟩

theorem exists_of_mapM {f : α → Except ε β} {as : List α} {bs : List β} {a : α}
    (h : as.mapM f = .ok bs) (ha : a ∈ as) : ∃ b ∈ bs, f a = .ok b := by
  induction as generalizing bs with
  | nil => exact absurd ha List.not_mem_nil
  | cons first rest ih =>
    simp only [List.mapM_cons, bind_eq_ok, pure, Except.pure, Except.ok.injEq] at h
    obtain ⟨b, hb, more, hmore, rfl⟩ := h
    rcases List.mem_cons.mp ha with rfl | ha
    · exact ⟨b, List.mem_cons_self, hb⟩
    · obtain ⟨other, ho, hf⟩ := ih hmore ha
      exact ⟨other, List.mem_cons_of_mem _ ho, hf⟩

/-- What is read off the results, read off what they come from. -/
theorem map_of_mapM {γ : Type} {f : α → Except ε β} {as : List α} {bs : List β} {g : β → γ}
    {k : α → γ} (h : as.mapM f = .ok bs) (hg : ∀ a b, f a = .ok b → g b = k a) :
    bs.map g = as.map k := by
  induction as generalizing bs with
  | nil =>
    simp only [List.mapM_nil, pure, Except.pure, Except.ok.injEq] at h
    rw [← h, List.map_nil, List.map_nil]
  | cons a rest ih =>
    simp only [List.mapM_cons, bind_eq_ok, pure, Except.pure, Except.ok.injEq] at h
    obtain ⟨b, hb, more, hmore, rfl⟩ := h
    rw [List.map_cons, List.map_cons, hg a b hb, ih hmore]

/-- The same for pairs with the elements of another list. -/
theorem zip_map_of_mapM {γ δ : Type} {f : α → Except ε β} {as : List α} {bs : List β}
    {cs : List γ} {g : β × γ → δ} {k : α × γ → δ} (h : as.mapM f = .ok bs)
    (hg : ∀ a b c, f a = .ok b → g (b, c) = k (a, c)) : (bs.zip cs).map g = (as.zip cs).map k := by
  induction as generalizing bs cs with
  | nil =>
    simp only [List.mapM_nil, pure, Except.pure, Except.ok.injEq] at h
    rw [← h, List.zip_nil_left, List.zip_nil_left, List.map_nil, List.map_nil]
  | cons a rest ih =>
    simp only [List.mapM_cons, bind_eq_ok, pure, Except.pure, Except.ok.injEq] at h
    obtain ⟨b, hb, more, hmore, rfl⟩ := h
    cases cs with
    | nil => rfl
    | cons c cs => rw [List.zip_cons_cons, List.zip_cons_cons, List.map_cons, List.map_cons,
        hg a b c hb, ih hmore]

/-- The first result of some kind comes from the first element of that kind. -/
theorem find?_of_mapM {f : α → Except ε β} {as : List α} {bs : List β} {p : α → Bool} {q : β → Bool}
    (h : as.mapM f = .ok bs) (hpq : ∀ a b, f a = .ok b → q b = p a) :
    (as.find? p = none ∧ bs.find? q = none) ∨
      ∃ a b, as.find? p = some a ∧ bs.find? q = some b ∧ f a = .ok b := by
  induction as generalizing bs with
  | nil =>
    simp only [List.mapM_nil, pure, Except.pure, Except.ok.injEq] at h
    exact .inl ⟨rfl, h ▸ rfl⟩
  | cons a rest ih =>
    simp only [List.mapM_cons, bind_eq_ok, pure, Except.pure, Except.ok.injEq] at h
    obtain ⟨b, hb, more, hmore, rfl⟩ := h
    have hq := hpq a b hb
    cases hp : p a with
    | true =>
      rw [hp] at hq
      exact .inr ⟨a, b, List.find?_cons_of_pos hp, List.find?_cons_of_pos hq, hb⟩
    | false =>
      rw [hp] at hq
      rw [List.find?_cons_of_neg (by simp [hp]), List.find?_cons_of_neg (by simp [hq])]
      exact ih hmore

theorem mapM_reverse {f : α → Except ε β} {as : List α} {bs : List β} (h : as.mapM f = .ok bs) :
    as.reverse.mapM f = .ok bs.reverse := by
  induction as generalizing bs with
  | nil =>
    simp only [List.mapM_nil, pure, Except.pure, Except.ok.injEq] at h
    exact h ▸ rfl
  | cons a rest ih =>
    simp only [List.mapM_cons, bind_eq_ok, pure, Except.pure, Except.ok.injEq] at h
    obtain ⟨b, hb, more, hmore, rfl⟩ := h
    have hlast : [a].mapM f = .ok [b] := by
      rw [List.mapM_cons, hb]
      rfl
    rw [List.reverse_cons, List.reverse_cons]
    exact mapM_append (ih hmore) hlast

/-- What every step of a fold keeps, the fold keeps. -/
theorem foldlM_induction {P : β → Prop} {f : β → α → Except ε β} {l : List α} {b b' : β}
    (h : l.foldlM f b = .ok b') (hb : P b)
    (step : ∀ a ∈ l, ∀ u u', P u → f u a = .ok u' → P u') : P b' := by
  induction l generalizing b with
  | nil =>
    simp only [List.foldlM_nil, pure, Except.pure, Except.ok.injEq] at h
    exact h ▸ hb
  | cons a rest ih =>
    simp only [List.foldlM_cons, bind_eq_ok] at h
    obtain ⟨u, hu, h⟩ := h
    exact ih h (step a List.mem_cons_self b u hb hu) fun c hc =>
      step c (List.mem_cons_of_mem _ hc)

theorem foldlM_error {f : β → α → Except ε β} {l : List α} {b : β} {e : ε}
    (h : l.foldlM f b = .error e) : ∃ a ∈ l, ∃ u, f u a = .error e := by
  induction l generalizing b with
  | nil =>
    simp only [List.foldlM_nil, pure, Except.pure] at h
    cases h
  | cons a rest ih =>
    rw [List.foldlM_cons] at h
    cases hstep : f b a with
    | error cause =>
      rw [hstep, error_bind] at h
      cases h
      exact ⟨a, List.mem_cons_self, b, hstep⟩
    | ok u =>
      rw [hstep, ok_bind] at h
      obtain ⟨other, hother, v, hv⟩ := ih h
      exact ⟨other, List.mem_cons_of_mem _ hother, v, hv⟩

/-! ## With a state

The same for steps that go on from a state, also where they fail. -/

/-- The state after a step, whether it succeeded or failed. -/
def stateOf {σ : Type} : EStateM.Result ε σ α → σ
  | .ok _ s | .error _ s => s

section
variable {σ : Type} {s s' : σ}

/-- What both parts of a chain keep, the chain keeps. -/
theorem stateOf_bind {P : σ → Prop} {x : EStateM ε σ α} {f : α → EStateM ε σ β}
    (hx : P (stateOf (x s))) (hf : ∀ a s₁, P s₁ → P (stateOf (f a s₁))) :
    P (stateOf ((x >>= f) s)) := by
  show P (stateOf (EStateM.bind x f s))
  unfold EStateM.bind
  cases hrun : x s with
  | ok a s₁ =>
    rw [hrun] at hx
    exact hf a s₁ hx
  | error e s₁ =>
    rw [hrun] at hx
    exact hx

theorem stateOf_map (f : α → β) (x : EStateM ε σ α) : stateOf ((f <$> x) s) = stateOf (x s) := by
  show stateOf (EStateM.map f x s) = _
  unfold EStateM.map
  cases x s <;> rfl

theorem stateOf_ofExcept (x : Except ε α) :
    stateOf ((MonadExcept.ofExcept x : EStateM ε σ α) s) = s := by
  cases x <;> rfl

theorem runBind_eq_ok {x : EStateM ε σ α} {f : α → EStateM ε σ β} {b : β} :
    (x >>= f) s = .ok b s' ↔ ∃ a s₁, x s = .ok a s₁ ∧ f a s₁ = .ok b s' := by
  show EStateM.bind x f s = .ok b s' ↔ _
  unfold EStateM.bind
  cases x s with
  | ok a s₁ =>
    constructor
    · exact fun h => ⟨a, s₁, rfl, h⟩
    · rintro ⟨_, _, ⟨⟩, h⟩
      exact h
  | error e s₁ => simp

theorem runBind_eq_error {x : EStateM ε σ α} {f : α → EStateM ε σ β} {e : ε} :
    (x >>= f) s = .error e s' ↔
      x s = .error e s' ∨ ∃ a s₁, x s = .ok a s₁ ∧ f a s₁ = .error e s' := by
  show EStateM.bind x f s = .error e s' ↔ _
  unfold EStateM.bind
  cases x s with
  | ok a s₁ =>
    constructor
    · exact fun h => .inr ⟨a, s₁, rfl, h⟩
    · rintro (h | ⟨_, _, ⟨⟩, h⟩)
      · cases h
      · exact h
  | error e s₁ => simp

theorem runMap_eq_ok {x : EStateM ε σ α} {f : α → β} {b : β} :
    (f <$> x) s = .ok b s' ↔ ∃ a, x s = .ok a s' ∧ f a = b := by
  show EStateM.map f x s = .ok b s' ↔ _
  unfold EStateM.map
  cases x s with
  | ok a s₁ =>
    constructor
    · rintro ⟨⟩
      exact ⟨a, rfl, rfl⟩
    · rintro ⟨_, ⟨⟩, rfl⟩
      rfl
  | error e s₁ => simp

theorem runMap_eq_error {x : EStateM ε σ α} {f : α → β} {e : ε} :
    (f <$> x) s = .error e s' ↔ x s = .error e s' := by
  show EStateM.map f x s = .error e s' ↔ _
  unfold EStateM.map
  cases x s with
  | ok a s₁ => simp
  | error e s₁ => simp

theorem runOfExcept_eq_ok {x : Except ε α} {a : α} :
    (MonadExcept.ofExcept x : EStateM ε σ α) s = .ok a s' ↔ x = .ok a ∧ s' = s := by
  cases x with
  | ok b =>
    constructor
    · rintro ⟨⟩
      exact ⟨rfl, rfl⟩
    · rintro ⟨⟨⟩, rfl⟩
      rfl
  | error e => exact ⟨nofun, fun ⟨h, _⟩ => nomatch h⟩

theorem runOfExcept_eq_error {x : Except ε α} {e : ε} :
    (MonadExcept.ofExcept x : EStateM ε σ α) s = .error e s' ↔ x = .error e ∧ s' = s := by
  cases x with
  | ok b => exact ⟨nofun, fun ⟨h, _⟩ => nomatch h⟩
  | error e' =>
    constructor
    · rintro ⟨⟩
      exact ⟨rfl, rfl⟩
    · rintro ⟨⟨⟩, rfl⟩
      rfl

end

/-! ## Succeeding together

Steps that meet the same faults in another order fail together, but not with the same errors. -/

/-- Two steps succeed both, with results in the relation, or fail both. -/
inductive Together (R : α → β → Prop) : Except ε α → Except ε β → Prop
  | ok {a : α} {b : β} (h : R a b) : Together R (.ok a) (.ok b)
  | error {e e' : ε} : Together R (.error e) (.error e')

theorem together_self {R : α → α → Prop} (hR : ∀ a, R a a) (x : Except ε α) : Together R x x := by
  cases x with
  | ok a => exact .ok (hR a)
  | error e => exact .error

/-- What succeeds together with a step that succeeds. -/
theorem Together.exists_ok {R : α → β → Prop} {a : α} {y : Except ε β}
    (h : Together R (.ok a) y) : ∃ b, y = .ok b ∧ R a b := by
  cases h with
  | ok h => exact ⟨_, rfl, h⟩

theorem Together.trans {R : α → α → Prop} (hR : ∀ a b c, R a b → R b c → R a c)
    {x y z : Except ε α} (h : Together R x y) (h' : Together R y z) : Together R x z := by
  cases h with
  | error =>
    cases h'
    exact .error
  | ok h =>
    cases h' with
    | ok h' => exact .ok (hR _ _ _ h h')

theorem Together.bind {γ δ : Type} {R : α → β → Prop} {S : γ → δ → Prop} {x : Except ε α}
    {y : Except ε β} {f : α → Except ε γ} {g : β → Except ε δ} (h : Together R x y)
    (hfg : ∀ a b, R a b → Together S (f a) (g b)) : Together S (x >>= f) (y >>= g) := by
  cases h with
  | ok h => exact hfg _ _ h
  | error => exact .error

theorem Together.map {γ δ : Type} {R : α → β → Prop} {S : γ → δ → Prop} {x : Except ε α}
    {y : Except ε β} {f : α → γ} {g : β → δ} (h : Together R x y)
    (hfg : ∀ a b, R a b → S (f a) (g b)) : Together S (f <$> x) (g <$> y) := by
  cases h with
  | ok h => exact .ok (hfg _ _ h)
  | error => exact .error

theorem Together.imp {R S : α → β → Prop} {x : Except ε α} {y : Except ε β} (h : Together R x y)
    (hRS : ∀ a b, x = .ok a → y = .ok b → R a b → S a b) : Together S x y := by
  cases h with
  | ok h => exact .ok (hRS _ _ rfl rfl h)
  | error => exact .error

/-- Chains with the same first step succeed together if they do from there. -/
theorem together_bind {γ : Type} {R : β → γ → Prop} {x : Except ε α} {f : α → Except ε β}
    {g : α → Except ε γ} (hfg : ∀ a, Together R (f a) (g a)) : Together R (x >>= f) (x >>= g) := by
  cases x with
  | ok a => exact hfg a
  | error e => exact .error

/-- Two checks that pass together. -/
theorem together_check {x y : Except ε Unit} (h : x = .ok () ↔ y = .ok ()) :
    Together (· = ·) x y := by
  cases x with
  | ok =>
    rw [h.mp rfl]
    exact .ok rfl
  | error e =>
    cases y with
    | ok => exact nomatch h.mpr rfl
    | error e' => exact .error

theorem Together.mapError {R : α → β → Prop} {x : Except ε α} {y : Except ε β}
    (h : Together R x y) (f : ε → ε') : Together R (x.mapError f) (y.mapError f) := by
  cases h with
  | ok h => exact .ok h
  | error => exact .error

/-- A traversal in another order succeeds or fails as well, and gives the same results in that
order. -/
theorem together_mapM {f : α → Except ε β} {as as' : List α} (h : as'.Perm as) :
    Together (fun bs bs' => bs'.Perm bs) (as.mapM f) (as'.mapM f) := by
  induction h with
  | nil => exact together_self .refl _
  | cons a _ ih =>
    rw [List.mapM_cons, List.mapM_cons]
    cases f a with
    | error e => exact .error
    | ok b => exact ih.bind fun bs bs' hp => .ok (hp.cons b)
  | swap a b l =>
    simp only [List.mapM_cons]
    cases f a with
    | error e => cases f b <;> exact .error
    | ok c =>
      cases f b with
      | error e => exact .error
      | ok d =>
        cases l.mapM f with
        | error e => exact .error
        | ok bs => exact .ok (.swap c d bs)
  | trans _ _ ih ih' => exact ih'.trans (fun _ _ _ hp hp' => hp'.trans hp) ih

section
variable {σ : Type} {s : σ}

/-- The value of a run, if it succeeds, and the state after it. -/
def outcomeOf : EStateM.Result ε σ α → Option α × σ
  | .ok a s => (some a, s)
  | .error _ s => (none, s)

theorem outcomeOf_snd (r : EStateM.Result ε σ α) : (outcomeOf r).2 = stateOf r := by
  cases r <;> rfl

theorem outcomeOf_bind {x y : EStateM ε σ α} {f g : α → EStateM ε σ β}
    (hxy : outcomeOf (x s) = outcomeOf (y s))
    (hfg : ∀ a s₁, outcomeOf (f a s₁) = outcomeOf (g a s₁)) :
    outcomeOf ((x >>= f) s) = outcomeOf ((y >>= g) s) := by
  show outcomeOf (EStateM.bind x f s) = outcomeOf (EStateM.bind y g s)
  unfold EStateM.bind
  cases hx : x s <;> cases hy : y s <;> rw [hx, hy] at hxy <;> cases hxy
  · exact hfg _ _
  · rfl

theorem outcomeOf_map {x y : EStateM ε σ α} (f : α → β) (hxy : outcomeOf (x s) = outcomeOf (y s)) :
    outcomeOf ((f <$> x) s) = outcomeOf ((f <$> y) s) := by
  show outcomeOf (EStateM.map f x s) = outcomeOf (EStateM.map f y s)
  unfold EStateM.map
  cases hx : x s <;> cases hy : y s <;> rw [hx, hy] at hxy <;> cases hxy <;> rfl

/-- Runs that go on from steps that succeed together. -/
theorem outcomeOf_ofExcept_bind {γ : Type} {R : α → β → Prop} {x : Except ε α} {y : Except ε β}
    {f : α → EStateM ε σ γ} {g : β → EStateM ε σ γ} (hxy : Together R x y)
    (hfg : ∀ a b, R a b → outcomeOf (f a s) = outcomeOf (g b s)) :
    outcomeOf (((MonadExcept.ofExcept x : EStateM ε σ α) >>= f) s) =
      outcomeOf (((MonadExcept.ofExcept y : EStateM ε σ β) >>= g) s) := by
  cases hxy with
  | ok h => exact hfg _ _ h
  | error => rfl

end

end RecordStore
