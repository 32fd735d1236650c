import RecordStore.Proofs.Operation.Failures
import RecordStore.Proofs.Session.Opening

/-!
# Faults in arguments

Whether the arguments of an operation are at fault is decided when it is planned, from the models of
the configuration alone. So two sessions with one configuration find the same faults, whatever their
databases hold, whichever connections are open and whatever routes they take, and the session in
which a fault is found stays as it was.
-/

namespace RecordStore

namespace Session

variable {s s' s₁ : Session} {op : Operation} {e : StoreError}

/-- The models of a session are those of its configuration. -/
theorem Reachable.ofModels (h : s.Reachable) :
    Registry.ofModels s.config.database s.config.models = .ok s.registry := by
  induction h with
  | opened _ h =>
    simp only [ofConfig, bind_eq_ok, mapError_eq_ok, Except.ok.injEq] at h
    obtain ⟨registry, hregistry, rfl⟩ := h
    exact hregistry
  | @after s _ event ih =>
    have hsetup := sameSetup_after s event
    rw [hsetup.config, hsetup.registry, ih]

/-- An operation fails for its arguments exactly if it has no plan for that reason, and then it leaves
the session alone. -/
theorem perform_eq_argument_error (he : e.OfArguments) :
    perform op s = .error e s₁ ↔ op.plan s.registry = .error e ∧ s₁ = s := by
  constructor
  · intro h
    cases hplan : op.plan s.registry with
    | error cause =>
      rw [perform_of_fault hplan] at h
      cases h
      exact ⟨rfl, rfl⟩
    | ok found =>
      obtain ⟨m, plan⟩ := found
      rw [perform_of_plan hplan] at h
      have hfails := Operation.planOn_failsWith (plan_eq_ok hplan).2
      rcases run_failsWith hfails h with ⟨cause, rfl⟩ | hdata
      · cases he
      · exact absurd hdata he.not_ofData
  · rintro ⟨hplan, rfl⟩
    exact perform_of_fault hplan

/-- Two sessions with one configuration find the same fault in the arguments of an operation, or both
find none, in whatever states they are. The session that finds a fault stays as it was. -/
theorem argument_errors_agree (hs : s.Reachable) (hs' : s'.Reachable)
    (hconfig : s'.config = s.config) (op : Operation) (he : e.OfArguments) :
    ((∃ s₁, perform op s = .error e s₁) ↔ ∃ s₁, perform op s' = .error e s₁) ∧
      ∀ s₁, perform op s = .error e s₁ → s₁ = s := by
  have hregistry : s'.registry = s.registry := by
    have hmodels := hs'.ofModels
    rw [hconfig, hs.ofModels] at hmodels
    exact (Except.ok.inj hmodels).symm
  constructor
  · constructor
    · rintro ⟨s₁, h⟩
      have hplan := ((perform_eq_argument_error he).mp h).1
      exact ⟨s', (perform_eq_argument_error he).mpr ⟨hregistry ▸ hplan, rfl⟩⟩
    · rintro ⟨s₁, h⟩
      have hplan := ((perform_eq_argument_error he).mp h).1
      exact ⟨s, (perform_eq_argument_error he).mpr ⟨hregistry ▸ hplan, rfl⟩⟩
  · intro s₁ h
    exact ((perform_eq_argument_error he).mp h).2

/-- Takes the name of a person away, who has to have one. -/
def nameTakenAway : Operation := .update "Person" 1 [("name", .null)]

/-- A session that was never opened and asks for connections that do not exist. -/
def unroutedSession : Session := { uniqueSession with router := .constant "replica" "primary" }

/-- A name cannot be taken away from a person who is there, as a session without any database finds
out as well. -/
theorem name_not_taken_away :
    let s := (uniqueSession.after .init).after (.operation (.create "Person" [("name", .string "Ann")]))
    let e := StoreError.validation (.nullNotAccepted "name")
    perform nameTakenAway unroutedSession = .error e unroutedSession ∧
      perform nameTakenAway s = .error e s := by
  intro s e
  have hs : s.Reachable := .after (.after (.opened (FileTree.proper_ofTexts [])
    (rfl : ofConfig uniqueConfig .default _ = .ok uniqueSession)) .init) _
  have hs' : unroutedSession.Reachable := .opened (FileTree.proper_ofTexts [])
    (rfl : ofConfig uniqueConfig _ _ = .ok unroutedSession)
  have hfault : perform nameTakenAway unroutedSession = .error e unroutedSession := rfl
  obtain ⟨hsame, hstays⟩ := argument_errors_agree hs hs' rfl nameTakenAway
    (.validation (.nullNotAccepted "name"))
  obtain ⟨s₁, h⟩ := hsame.mpr ⟨unroutedSession, hfault⟩
  obtain rfl := hstays s₁ h
  exact ⟨hfault, h⟩

end Session

end RecordStore
