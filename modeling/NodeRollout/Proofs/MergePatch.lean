import NodeRollout.Json.MergePatch
import NodeRollout.Proofs.LabelMap

/-! Merge patches member by member. A member that the patch names is merged with it, or goes when it
is null there; every other one stays. -/
namespace NodeRollout.Json

variable {name key : String} {value target : Value} {members changes : List (String × Value)}

/-- What a member becomes by its change; one that is not there counts as null. -/
def Value.changed (old : Option Value) : Value → Option Value
  | .null => none
  | change => some ((old.getD .null).mergePatch change)

theorem mergeMembers_null : mergeMembers members ((name, .null) :: changes) =
    mergeMembers (removeMember name members) changes := rfl

theorem mergeMembers_cons (hvalue : value ≠ .null) :
    mergeMembers members ((name, value) :: changes) =
      mergeMembers (setMember name
        ((((Value.object members).get? name).getD .null).mergePatch value) members) changes := by
  cases value with
  | null => exact absurd rfl hvalue
  | _ => rfl

theorem get?_setMember : (Value.object (setMember name value members)).get? key =
    if key = name then some value else (Value.object members).get? key := by
  simp only [Value.get?, Value.members, setMember]
  split
  next hany =>
    obtain ⟨member, hmember, hname⟩ := List.any_eq_true.mp hany
    obtain ⟨old, hold⟩ := exists_lookup (List.mem_reverse.mpr hmember)
    rw [beq_iff_eq.mp hname] at hold
    rw [← List.map_reverse, lookup_replace, hold]
    rfl
  next =>
    rw [List.reverse_append, List.reverse_singleton, List.singleton_append]
    exact lookup_cons_entry key (name, value) members.reverse

theorem get?_removeMember : (Value.object (removeMember name members)).get? key =
    if key = name then none else (Value.object members).get? key := by
  simp only [Value.get?, Value.members, removeMember]
  rw [← List.filter_reverse]
  exact lookup_filter_ne name key members.reverse

theorem get?_mergeMembers (hnodup : (changes.map (·.1)).Nodup) :
    (Value.object (mergeMembers members changes)).get? key =
      match changes.lookup key with
      | some change => Value.changed ((Value.object members).get? key) change
      | none => (Value.object members).get? key := by
  induction changes generalizing members with
  | nil => rfl
  | cons e rest ih =>
    obtain ⟨name, change⟩ := e
    rw [List.map_cons, List.nodup_cons] at hnodup
    obtain ⟨hname, hrest⟩ := hnodup
    -- the first change decides about its own name, and no later one has that name
    have hfirst : ∀ members' : List (String × Value),
        (∀ key, (Value.object members').get? key =
          if key = name then Value.changed ((Value.object members).get? name) change
          else (Value.object members).get? key) →
        (Value.object (mergeMembers members' rest)).get? key =
          match ((name, change) :: rest).lookup key with
          | some change => Value.changed ((Value.object members).get? key) change
          | none => (Value.object members).get? key := by
      intro members' hmembers'
      rw [ih hrest, hmembers', lookup_cons_entry]
      by_cases hkey : key = name
      · have hnone : rest.lookup key = none := by
          refine lookup_eq_none_of_forall_ne fun d hd heq => ?_
          exact hname (List.mem_map.mpr ⟨d, hd, (hkey.symm.trans heq).symm⟩)
        simp only [hkey, if_true, hkey ▸ hnone]
      · simp only [hkey, if_false]
    cases change with
    | null => exact hfirst _ fun key => get?_removeMember
    | _ => exact hfirst _ fun key => get?_setMember

/-- The merge of a patch that names no member twice, member by member. -/
theorem get?_mergePatch (hnodup : (changes.map (·.1)).Nodup) :
    (target.mergePatch (.object changes)).get? key =
      match changes.lookup key with
      | some change => Value.changed (target.get? key) change
      | none => target.get? key := by
  rw [Value.mergePatch]
  exact get?_mergeMembers hnodup

theorem forall_mem_setMember {P : String × Value → Prop} (hvalue : P (name, value))
    (hmembers : ∀ m ∈ members, P m) : ∀ m ∈ setMember name value members, P m := by
  unfold setMember
  split
  · intro m hm
    obtain ⟨old, hold, rfl⟩ := List.mem_map.mp hm
    split
    · exact hvalue
    · exact hmembers old hold
  · intro m hm
    rcases List.mem_append.mp hm with hm | hm
    · exact hmembers m hm
    · rw [List.mem_singleton.mp hm]
      exact hvalue

theorem mem_of_mem_removeMember {m : String × Value} (hm : m ∈ removeMember name members) :
    m ∈ members := (List.mem_filter.mp hm).1

end NodeRollout.Json
