/-!
Finite maps from label names to values. The entries stand in increasing order of their names, so
each name occurs once and two maps with the same look-ups are the same map.
-/
namespace NodeRollout

/-- A finite map from names to values of type `α`. -/
structure LabelMap (α : Type) where
  entries : List (String × α)
  ascending : entries.Pairwise fun a b => a.1 < b.1
  deriving DecidableEq

namespace LabelMap

variable {α β : Type}

def empty : LabelMap α := ⟨[], .nil⟩

instance : EmptyCollection (LabelMap α) := ⟨empty⟩

instance : Inhabited (LabelMap α) := ⟨empty⟩

def isEmpty (m : LabelMap α) : Bool := m.entries.isEmpty

def get? (m : LabelMap α) (name : String) : Option α := m.entries.lookup name

def contains (m : LabelMap α) (name : String) : Bool := (m.get? name).isSome

def insertEntry (name : String) (value : α) : List (String × α) → List (String × α)
  | [] => [(name, value)]
  | e :: rest =>
    if name < e.1 then (name, value) :: e :: rest
    else if name = e.1 then (name, value) :: rest
    else e :: insertEntry name value rest

theorem mem_insertEntry {name : String} {value : α} {entries : List (String × α)}
    {e : String × α} (h : e ∈ insertEntry name value entries) : e = (name, value) ∨ e ∈ entries := by
  induction entries with
  | nil => simpa [insertEntry] using h
  | cons d rest ih =>
    simp only [insertEntry] at h
    split at h
    · simpa using h
    · split at h
      · rcases List.mem_cons.mp h with h | h
        · exact .inl h
        · exact .inr (List.mem_cons_of_mem _ h)
      · rcases List.mem_cons.mp h with h | h
        · exact .inr (h ▸ List.mem_cons_self)
        · exact (ih h).imp id (List.mem_cons_of_mem _)

theorem ascending_insertEntry (name : String) (value : α) {entries : List (String × α)}
    (h : entries.Pairwise fun a b => a.1 < b.1) :
    (insertEntry name value entries).Pairwise fun a b => a.1 < b.1 := by
  induction entries with
  | nil => simp [insertEntry]
  | cons d rest ih =>
    rw [List.pairwise_cons] at h
    simp only [insertEntry]
    split
    case isTrue hlt =>
      refine List.pairwise_cons.mpr ⟨?_, List.pairwise_cons.mpr h⟩
      intro e he
      rcases List.mem_cons.mp he with rfl | he
      · exact hlt
      · exact String.lt_trans hlt (h.1 e he)
    case isFalse hle =>
      split
      case isTrue heq =>
        exact List.pairwise_cons.mpr ⟨fun e he => heq ▸ h.1 e he, h.2⟩
      case isFalse hne =>
        refine List.pairwise_cons.mpr ⟨?_, ih h.2⟩
        intro e he
        rcases mem_insertEntry he with rfl | he
        · exact Decidable.byContradiction fun hnot =>
            hne (String.le_antisymm (String.not_lt.mp hnot) (String.not_lt.mp hle))
        · exact h.1 e he

def insert (m : LabelMap α) (name : String) (value : α) : LabelMap α :=
  ⟨insertEntry name value m.entries, ascending_insertEntry name value m.ascending⟩

def erase (m : LabelMap α) (name : String) : LabelMap α :=
  ⟨m.entries.filter (·.1 != name), m.ascending.filter _⟩

/-- The map of a list of entries; of two entries with one name the later counts. -/
def ofList (entries : List (String × α)) : LabelMap α :=
  entries.foldl (fun m e => m.insert e.1 e.2) ∅

def singleton (name : String) (value : α) : LabelMap α := ⟨[(name, value)], by simp⟩

end LabelMap

/-- The labels of a node. -/
abbrev Labels := LabelMap String

/-- Labels to set, or to remove where the value is `none`. -/
abbrev LabelChanges := LabelMap (Option String)

def Labels.change (labels : Labels) (name : String) : Option String → Labels
  | some value => labels.insert name value
  | none => labels.erase name

/-- Applies every change; labels that the changes do not name stay. -/
def Labels.apply (labels : Labels) (changes : LabelChanges) : Labels :=
  changes.entries.foldl (fun l e => Labels.change l e.1 e.2) labels

end NodeRollout
