import NodeRollout.Json.Record

/-! The fields of a record. Each is kept in a place of its own and read by a reader of its own; from
a list of them follows what fills a field, that it is filled once, and which names are unknown. -/
namespace NodeRollout.Json

namespace Seen

variable {seen : Seen}

theorem eq_string_of_asString {s : String} (h : seen.asString = .ok s) : seen = .string s := by
  cases seen with
  | string s' => rw [Except.ok.inj h]
  | null | bool _ | number _ | sequence | map => cases h

theorem eq_bool_of_asBool {b : Bool} (h : seen.asBool = .ok b) : seen = .bool b := by
  cases seen with
  | bool b' => rw [Except.ok.inj h]
  | null | string _ | number _ | sequence | map => cases h

end Seen

namespace Record

variable {σ α : Type}

def Filled (record : Record σ α) (draft : σ) (name : String) : Prop :=
  record.slot draft name = .filled

/-- The value seen fills the field of this name. -/
def Fills (record : Record σ α) (draft : σ) (name : String) (seen : Seen) (next : σ) : Prop :=
  ∃ fill, record.slot draft name = .free fill ∧ fill seen = .ok next

/-- A record whose fields are filled once each, with scalars of the kinds they take. -/
structure Lawful (record : Record σ α) (takes : String → Seen → Prop) : Prop where
  unknown_iff : ∀ draft name, record.slot draft name = .unknown ↔ name ∉ record.fields
  blank : ∀ name, ¬ record.Filled record.blank name
  takes_of_fills : ∀ {draft name seen next}, record.Fills draft name seen next → takes name seen
  filled_of_fills : ∀ {draft name seen next}, record.Fills draft name seen next →
    ∀ other, record.Filled next other ↔ other = name ∨ record.Filled draft other
  scalar : ∀ {name seen}, takes name seen → seen ≠ .sequence ∧ seen ≠ .map

variable {record : Record σ α} {draft next : σ} {name : String} {seen : Seen}

theorem Fills.fill_eq (h : record.Fills draft name seen next) :
    record.fill draft name seen = .ok next := by
  obtain ⟨fill, hslot, hfill⟩ := h
  rw [Record.fill, hslot]
  exact hfill

section Slots

variable {β : Type} {old : Option β} {read : Seen → Decoded β} {put : β → σ}

theorem ofField_ne_unknown : Slot.ofField old read put ≠ .unknown := by
  cases old <;> simp [Slot.ofField]

theorem ofField_eq_filled : Slot.ofField old read put = .filled ↔ old.isSome := by
  cases old with
  | none => simp [Slot.ofField]
  | some _ => simp [Slot.ofField]

/-- A field is filled by what its reader makes of the value. -/
theorem of_ofField {fill : Seen → Decoded σ} (hslot : Slot.ofField old read put = .free fill)
    (hfill : fill seen = .ok next) : ∃ v, read seen = .ok v ∧ next = put v := by
  cases old with
  | some _ => cases hslot
  | none =>
    obtain rfl := Slot.free.inj hslot
    change (read seen).map put = .ok next at hfill
    cases hread : read seen with
    | error fault => simp [hread, Except.map] at hfill
    | ok v =>
      rw [hread] at hfill
      exact ⟨v, rfl, (Except.ok.inj hfill).symm⟩

theorem Fills.of_ofField {v : β} (hslot : record.slot draft name = .ofField old read put)
    (hold : old = none) (hread : read seen = .ok v) (hput : put v = next) :
    record.Fills draft name seen next := by
  subst hold hput
  refine ⟨_, hslot, ?_⟩
  show (read seen).map put = _
  rw [hread]
  rfl

end Slots

section Fields

/-- One field of a record: how its value is read, and where a draft keeps it. -/
structure Field (σ : Type) where
  name : String
  type : Type
  read : Seen → Decoded type
  get : σ → Option type
  put : σ → type → σ

/-- The value seen is of the type of the field of this name. -/
def Takes (fields : List (Field σ)) (name : String) (seen : Seen) : Prop :=
  ∃ field ∈ fields, field.name = name ∧ ∃ v, field.read seen = .ok v

/-- The record is made of these fields: each is kept in a place of its own, and is a scalar. -/
structure Laid (record : Record σ α) (fields : List (Field σ)) : Prop where
  names : fields.map Field.name = record.fields
  slot : ∀ draft, ∀ field ∈ fields,
    record.slot draft field.name = .ofField (field.get draft) field.read (field.put draft)
  unknown : ∀ draft, ∀ name ∉ record.fields, record.slot draft name = .unknown
  blank : ∀ field ∈ fields, field.get record.blank = none
  put : ∀ field ∈ fields, ∀ other ∈ fields, ∀ draft v,
    (other.get (field.put draft v)).isSome ↔ other.name = field.name ∨ (other.get draft).isSome
  scalar : ∀ field ∈ fields, ∀ v, field.read .sequence ≠ .ok v ∧ field.read .map ≠ .ok v

namespace Laid

variable {fields : List (Field σ)}

theorem exists_field (h : record.Laid fields) (hname : name ∈ record.fields) :
    ∃ field ∈ fields, field.name = name := by
  rw [← h.names] at hname
  exact List.mem_map.mp hname

theorem unknown_iff (h : record.Laid fields) :
    record.slot draft name = .unknown ↔ name ∉ record.fields := by
  constructor
  · intro hunknown hname
    obtain ⟨field, hfield, rfl⟩ := h.exists_field hname
    rw [h.slot draft field hfield] at hunknown
    exact ofField_ne_unknown hunknown
  · exact h.unknown draft name

theorem filled_iff (h : record.Laid fields) : record.Filled draft name ↔
    ∃ field ∈ fields, field.name = name ∧ (field.get draft).isSome := by
  constructor
  · intro hfilled
    by_cases hname : name ∈ record.fields
    · obtain ⟨field, hfield, rfl⟩ := h.exists_field hname
      rw [Filled, h.slot draft field hfield] at hfilled
      exact ⟨field, hfield, rfl, ofField_eq_filled.mp hfilled⟩
    · rw [Filled, h.unknown draft name hname] at hfilled
      cases hfilled
  · intro hsome
    obtain ⟨field, hfield, rfl, hget⟩ := hsome
    rw [Filled, h.slot draft field hfield]
    exact ofField_eq_filled.mpr hget

/-- What fills a field is of its type, and is put in its place. -/
theorem of_fills (h : record.Laid fields) (hfills : record.Fills draft name seen next) :
    ∃ field ∈ fields, field.name = name ∧
      ∃ v, field.read seen = .ok v ∧ next = field.put draft v := by
  obtain ⟨fill, hslot, hfill⟩ := hfills
  by_cases hname : name ∈ record.fields
  · obtain ⟨field, hfield, rfl⟩ := h.exists_field hname
    rw [h.slot draft field hfield] at hslot
    exact ⟨field, hfield, rfl, of_ofField hslot hfill⟩
  · rw [h.unknown draft name hname] at hslot
    cases hslot

theorem lawful (h : record.Laid fields) : record.Lawful (Takes fields) where
  unknown_iff draft name := h.unknown_iff
  blank name := by
    rw [h.filled_iff]
    intro hsome
    obtain ⟨field, hfield, -, hget⟩ := hsome
    rw [h.blank field hfield] at hget
    cases hget
  takes_of_fills hfills := by
    obtain ⟨field, hfield, hname, v, hread, -⟩ := h.of_fills hfills
    exact ⟨field, hfield, hname, v, hread⟩
  filled_of_fills hfills other := by
    obtain ⟨field, hfield, rfl, v, -, rfl⟩ := h.of_fills hfills
    rw [h.filled_iff, h.filled_iff]
    -- a place holds something after `field` was put, if it is that of `field` or did before
    constructor
    · intro hsome
      obtain ⟨g, hg, rfl, hget⟩ := hsome
      exact ((h.put field hfield g hg _ v).mp hget).imp_right fun hbefore => ⟨g, hg, rfl, hbefore⟩
    · intro hsome
      rcases hsome with rfl | ⟨g, hg, rfl, hbefore⟩
      · exact ⟨field, hfield, rfl, (h.put field hfield field hfield _ v).mpr (.inl rfl)⟩
      · exact ⟨g, hg, rfl, (h.put field hfield g hg _ v).mpr (.inr hbefore)⟩
  scalar htakes := by
    obtain ⟨field, hfield, -, v, hread⟩ := htakes
    obtain ⟨hsequence, hmap⟩ := h.scalar field hfield v
    exact ⟨fun heq => hsequence (heq ▸ hread), fun heq => hmap (heq ▸ hread)⟩

end Laid

end Fields

end Record

end NodeRollout.Json
