import RecordStore.Proofs.Database.Names
import RecordStore.Json.Basic

/-!
# Members of objects

Where no key stands twice, a member is found by its key, and an object that is made of the members
has them all in their order.
-/

namespace RecordStore.Json

/-- No key stands twice. -/
def DistinctKeys (record : Record) : Prop := record.Pairwise fun a b => a.1 ≠ b.1

instance (record : Record) : Decidable (DistinctKeys record) :=
  inferInstanceAs (Decidable (record.Pairwise fun a b => a.1 ≠ b.1))

theorem setMember_of_new {members : Record} {key : String} (h : ∀ member ∈ members, member.1 ≠ key)
    (value : Json) : setMember members key value = members ++ [(key, value)] := by
  induction members with
  | nil => rfl
  | cons first rest ih =>
    have hfirst : first.1 ≠ key := h first List.mem_cons_self
    rw [setMember, if_neg hfirst, ih fun member hm => h member (List.mem_cons_of_mem _ hm),
      List.cons_append]

/-- Members with new keys are set at the end. -/
theorem setMembers_of_distinct {members more : Record} (h : DistinctKeys (members ++ more)) :
    setMembers members more = members ++ more := by
  induction more generalizing members with
  | nil => rw [List.append_nil]; rfl
  | cons first rest ih =>
    have hnew : ∀ member ∈ members, member.1 ≠ first.1 := fun member hm =>
      (List.pairwise_append.mp h).2.2 member hm first List.mem_cons_self
    have hstep : setMembers members (first :: rest) =
        setMembers (setMember members first.1 first.2) rest := rfl
    rw [hstep, setMember_of_new hnew, ih, List.append_assoc, List.singleton_append]
    rwa [List.append_assoc, List.singleton_append]

theorem member?_of_distinct {record : Record} (h : DistinctKeys record) {key : String} {value : Json}
    (hm : (key, value) ∈ record) : member? record key = some value := by
  have hfound : record.find? (fun member => member.1 = key) = some (key, value) :=
    find?_of_distinct h hm
  rw [member?, hfound]
  rfl

/-! ## Objects that are made of members -/

theorem mem_setMember {members : Record} {key : String} {value : Json} {member : String × Json}
    (h : member ∈ setMember members key value) : member ∈ members ∨ member = (key, value) := by
  induction members with
  | nil => exact .inr (List.mem_singleton.mp h)
  | cons first rest ih =>
    unfold setMember at h
    split at h
    next hkey =>
      rcases List.mem_cons.mp h with h | h
      · exact .inr (hkey ▸ h)
      · exact .inl (List.mem_cons_of_mem _ h)
    · rcases List.mem_cons.mp h with h | h
      · exact .inl (List.mem_cons.mpr (.inl h))
      · exact (ih h).imp_left (List.mem_cons_of_mem _)

theorem DistinctKeys.setMember {members : Record} (h : DistinctKeys members) (key : String)
    (value : Json) : DistinctKeys (setMember members key value) := by
  induction members with
  | nil => exact List.pairwise_singleton _ _
  | cons first rest ih =>
    obtain ⟨hfirst, hrest⟩ := List.pairwise_cons.mp h
    unfold Json.setMember
    split
    · exact List.pairwise_cons.mpr ⟨hfirst, hrest⟩
    next hne =>
      refine List.pairwise_cons.mpr ⟨fun member hmember => ?_, ih hrest⟩
      rcases mem_setMember hmember with hmember | rfl
      · exact hfirst member hmember
      · exact hne

/-- An object that is made of members has each key once. -/
theorem distinctKeys_setMembers {members : Record} (h : DistinctKeys members) (more : Record) :
    DistinctKeys (setMembers members more) := by
  induction more generalizing members with
  | nil => exact h
  | cons first rest ih => exact ih (h.setMember first.1 first.2)

/-- An object that is made of members has no others. -/
theorem mem_setMembers {members more : Record} {member : String × Json}
    (h : member ∈ setMembers members more) : member ∈ members ∨ member ∈ more := by
  induction more generalizing members with
  | nil => exact .inl h
  | cons first rest ih =>
    rcases ih h with hset | hrest
    · exact (mem_setMember hset).imp_right fun heq => List.mem_cons.mpr (.inl heq)
    · exact .inr (List.mem_cons_of_mem _ hrest)

end RecordStore.Json
