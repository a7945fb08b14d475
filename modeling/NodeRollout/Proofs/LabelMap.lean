import Mathlib.Data.List.Nodup
import NodeRollout.LabelMap

/-! Look-ups after each operation on a label map. A change of labels is decided name by name: a
label that the changes name gets their value, every other one stays. -/
namespace NodeRollout

section Lookup

variable {κ α : Type} [BEq κ] [LawfulBEq κ] [DecidableEq κ]

theorem lookup_cons_entry (key : κ) (e : κ × α) (rest : List (κ × α)) :
    (e :: rest).lookup key = if key = e.1 then some e.2 else rest.lookup key := by
  obtain ⟨name, value⟩ := e
  by_cases h : key = name
  · rw [h, List.lookup_cons_self, if_pos rfl]
  · have hb : (key == name) = false := beq_false_of_ne h
    rw [List.lookup_cons, hb, if_neg h]

theorem lookup_filter_ne (name key : κ) (entries : List (κ × α)) :
    (entries.filter (·.1 != name)).lookup key =
      if key = name then none else entries.lookup key := by
  induction entries with
  | nil => simp
  | cons e rest ih =>
    rw [lookup_cons_entry]
    by_cases he : e.1 = name
    · rw [List.filter_cons_of_neg (by simp [he]), ih]
      by_cases hk : key = name
      · simp only [if_pos hk]
      · simp only [if_neg hk, if_neg (he ▸ hk : key ≠ e.1)]
    · rw [List.filter_cons_of_pos (by simpa using he), lookup_cons_entry, ih]
      by_cases hk : key = e.1
      · simp only [if_pos hk, if_neg (hk ▸ he : key ≠ name)]
      · simp only [if_neg hk]

end Lookup

theorem lookup_insertEntry {α : Type} (name key : String) (value : α)
    (entries : List (String × α)) :
    (LabelMap.insertEntry name value entries).lookup key =
      if key = name then some value else entries.lookup key := by
  induction entries with
  | nil => exact lookup_cons_entry key (name, value) []
  | cons e rest ih =>
    simp only [LabelMap.insertEntry]
    split
    · exact lookup_cons_entry key (name, value) (e :: rest)
    · split
      next heq =>
        simp only [lookup_cons_entry, heq]
        split <;> rfl
      next hne =>
        -- the entry in front has another name, so it decides only about that one
        simp only [lookup_cons_entry, ih]
        by_cases h : key = e.1
        · have hk : key ≠ name := fun hk => hne (hk.symm.trans h)
          simp only [if_pos h, if_neg hk]
        · simp only [if_neg h]

theorem lookup_eq_none_of_forall_ne {α : Type} {key : String} {entries : List (String × α)}
    (h : ∀ e ∈ entries, key ≠ e.1) : entries.lookup key = none := by
  induction entries with
  | nil => rfl
  | cons e rest ih =>
    rw [lookup_cons_entry, if_neg (h e List.mem_cons_self)]
    exact ih fun d hd => h d (List.mem_cons_of_mem _ hd)

theorem lookup_replace {α : Type} (name key : String) (value : α) (entries : List (String × α)) :
    (entries.map fun e => if e.1 = name then (name, value) else e).lookup key =
      if key = name then (entries.lookup name).map fun _ => value else entries.lookup key := by
  induction entries with
  | nil => simp
  | cons e rest ih =>
    rw [List.map_cons, lookup_cons_entry, ih, lookup_cons_entry, lookup_cons_entry]
    by_cases he : e.1 = name
    · by_cases hk : key = name
      · simp [he, hk]
      · simp [he, hk]
    · by_cases hk : key = name
      · subst hk
        simp [he, Ne.symm he]
      · simp [he, hk]

theorem mem_of_lookup {α : Type} {key : String} {value : α} {entries : List (String × α)}
    (h : entries.lookup key = some value) : (key, value) ∈ entries := by
  induction entries with
  | nil => cases h
  | cons e rest ih =>
    rw [lookup_cons_entry] at h
    split at h
    next hkey =>
      obtain rfl := Option.some.inj h
      rw [hkey]
      exact List.mem_cons_self
    next => exact List.mem_cons_of_mem e (ih h)

theorem exists_lookup {α : Type} {e : String × α} {entries : List (String × α)}
    (h : e ∈ entries) : ∃ value, entries.lookup e.1 = some value := by
  induction entries with
  | nil => cases h
  | cons d rest ih =>
    rw [lookup_cons_entry]
    by_cases hkey : e.1 = d.1
    · exact ⟨d.2, if_pos hkey⟩
    · have hrest : e ∈ rest := (List.mem_cons.mp h).resolve_left fun heq => hkey (heq ▸ rfl)
      rw [if_neg hkey]
      exact ih hrest

theorem lookup_of_mem {α : Type} {key : String} {value : α} {entries : List (String × α)}
    (hnodup : (entries.map (·.1)).Nodup) (h : (key, value) ∈ entries) :
    entries.lookup key = some value := by
  induction entries with
  | nil => cases h
  | cons e rest ih =>
    rw [List.map_cons, List.nodup_cons] at hnodup
    rw [lookup_cons_entry]
    rcases List.mem_cons.mp h with rfl | h
    · rw [if_pos rfl]
    · have hne : key ≠ e.1 := by
        rintro rfl
        exact hnodup.1 (List.mem_map.mpr ⟨_, h, rfl⟩)
      rw [if_neg hne]
      exact ih hnodup.2 h

/-- Where no name occurs twice, the order of the entries does not matter. -/
theorem lookup_reverse {α : Type} {entries : List (String × α)}
    (hnodup : (entries.map (·.1)).Nodup) (key : String) :
    entries.reverse.lookup key = entries.lookup key := by
  have hnodup' : (entries.reverse.map (·.1)).Nodup := by
    rw [List.map_reverse]
    exact List.nodup_reverse.mpr hnodup
  refine Option.ext fun value => ?_
  constructor
  · intro h
    exact lookup_of_mem hnodup (List.mem_reverse.mp (mem_of_lookup h))
  · intro h
    exact lookup_of_mem hnodup' (List.mem_reverse.mpr (mem_of_lookup h))

namespace LabelMap

variable {α β : Type}

@[simp] theorem get?_empty (key : String) : (∅ : LabelMap α).get? key = none := rfl

@[simp] theorem get?_singleton (name key : String) (value : α) :
    (singleton name value).get? key = if key = name then some value else none :=
  lookup_cons_entry key (name, value) []

@[simp] theorem get?_insert (m : LabelMap α) (name key : String) (value : α) :
    (m.insert name value).get? key = if key = name then some value else m.get? key :=
  lookup_insertEntry name key value m.entries

@[simp] theorem get?_erase (m : LabelMap α) (name key : String) :
    (m.erase name).get? key = if key = name then none else m.get? key :=
  lookup_filter_ne name key m.entries

@[simp] theorem isEmpty_empty : (∅ : LabelMap α).isEmpty = true := rfl

@[simp] theorem isEmpty_singleton (name : String) (value : α) :
    (singleton name value).isEmpty = false := rfl

@[simp] theorem isEmpty_insert (m : LabelMap α) (name : String) (value : α) :
    (m.insert name value).isEmpty = false := by
  cases h : (m.insert name value).isEmpty with
  | false => rfl
  | true =>
    have hnil : (m.insert name value).entries = [] := List.isEmpty_iff.mp h
    have hget := get?_insert m name name value
    simp [get?, hnil] at hget

theorem nodup_names (m : LabelMap α) : (m.entries.map (·.1)).Nodup := by
  refine List.pairwise_map.mpr (m.ascending.imp ?_)
  intro a b hlt heq
  exact String.lt_irrefl b.1 (heq ▸ hlt)

/-- Two maps with the same look-ups are the same map. -/
theorem ext_get? {m n : LabelMap α} (h : ∀ key, m.get? key = n.get? key) : m = n := by
  have hmem : ∀ m : LabelMap α, ∀ e, e ∈ m.entries ↔ m.get? e.1 = some e.2 :=
    fun m e => ⟨lookup_of_mem m.nodup_names, mem_of_lookup⟩
  -- the same entries, and of two ascending lists of them there is only one
  have hperm : m.entries.Perm n.entries := by
    refine (List.perm_ext_iff_of_nodup m.nodup_names.of_map n.nodup_names.of_map).mpr ?_
    intro e
    rw [hmem m, hmem n, h]
  have hentries : m.entries = n.entries := by
    refine hperm.eq_of_pairwise ?_ m.ascending n.ascending
    intro a b _ _ hab hba
    exact absurd (String.lt_trans hab hba) (String.lt_irrefl a.1)
  cases m
  cases n
  subst hentries
  rfl

/-- Of several entries with one name the last counts. -/
theorem get?_ofList (entries : List (String × α)) (key : String) :
    (ofList entries).get? key = entries.reverse.lookup key := by
  have hfold : ∀ m : LabelMap α,
      (entries.foldl (fun m e => m.insert e.1 e.2) m).get? key =
        (entries.reverse.lookup key).or (m.get? key) := by
    induction entries with
    | nil => exact fun m => rfl
    | cons e rest ih =>
      intro m
      rw [List.foldl_cons, ih, get?_insert, List.reverse_cons, List.lookup_append,
        lookup_cons_entry, Option.or_assoc]
      split <;> simp
  rw [ofList, hfold]
  simp

theorem ofList_entries (m : LabelMap α) : ofList m.entries = m := by
  refine ext_get? fun key => ?_
  rw [get?_ofList, lookup_reverse m.nodup_names, get?]

def map (f : α → β) (m : LabelMap α) : LabelMap β :=
  ⟨m.entries.map fun e => (e.1, f e.2), List.pairwise_map.mpr m.ascending⟩

@[simp] theorem get?_map (f : α → β) (m : LabelMap α) (key : String) :
    (m.map f).get? key = (m.get? key).map f := by
  obtain ⟨entries, hasc⟩ := m
  simp only [get?, map]
  induction entries with
  | nil => rfl
  | cons e rest ih =>
    rw [List.map_cons, lookup_cons_entry, lookup_cons_entry, ih (List.pairwise_cons.mp hasc).2]
    split <;> rfl

theorem map_insert (f : α → β) (m : LabelMap α) (name : String) (value : α) :
    (m.insert name value).map f = (m.map f).insert name (f value) := by
  refine ext_get? fun key => ?_
  rw [get?_map, get?_insert, get?_insert, get?_map]
  split <;> rfl

end LabelMap

namespace Labels

@[simp] theorem get?_change (labels : Labels) (name key : String) (value : Option String) :
    LabelMap.get? (change labels name value) key =
      if key = name then value else labels.get? key := by
  cases value <;> simp [change]

/-- A label that the changes name gets their value, every other one stays. -/
theorem get?_apply (labels : Labels) (changes : LabelChanges) (key : String) :
    LabelMap.get? (labels.apply changes) key = (changes.get? key).getD (labels.get? key) := by
  obtain ⟨entries, hasc⟩ := changes
  simp only [apply]
  induction entries generalizing labels with
  | nil => rfl
  | cons e rest ih =>
    rw [List.pairwise_cons] at hasc
    rw [List.foldl_cons, ih (change labels e.1 e.2) hasc.2, get?_change]
    simp only [LabelMap.get?, lookup_cons_entry]
    by_cases h : key = e.1
    · -- the names ascend, so no later entry changes this label again
      have hnone : rest.lookup key = none := by
        refine lookup_eq_none_of_forall_ne fun d hd heq => ?_
        exact String.lt_irrefl e.1 (by simpa only [← h, ← heq] using hasc.1 d hd)
      simp only [if_pos h, hnone, Option.getD_none, Option.getD_some]
    · simp only [if_neg h]

end Labels

end NodeRollout
