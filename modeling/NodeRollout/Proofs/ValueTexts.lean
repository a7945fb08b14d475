import NodeRollout.Proofs.MergePatch
import NodeRollout.Proofs.ValueWords

/-! The texts of values. A value whose numbers are numerals has a text, and is read back from it
however deep it is; the values that have one are closed under merge patches. -/
namespace NodeRollout.Json

variable {value target patch : Value} {name : String} {members changes : List (String × Value)}

/-- A value with a text: each number in it is the value of a numeral. -/
inductive Value.Writable : Value → Prop where
  | null : Writable .null
  | bool (b : Bool) : Writable (.bool b)
  | number {n : Numeral} {text : List Char} {x : Number} (h : n.Written text)
      (hx : n.number? = some x) : Writable (.number x)
  | string (s : String) : Writable (.string s)
  | array {items : List Value} (h : ∀ item ∈ items, Writable item) : Writable (.array items)
  | object {members : List (String × Value)} (h : ∀ m ∈ members, Writable m.2) :
      Writable (.object members)
  | unreadable : Writable .unreadable

namespace Value.Writable

attribute [simp] null bool string unreadable

@[simp]
theorem object_iff : Writable (.object members) ↔ ∀ m ∈ members, Writable m.2 :=
  ⟨fun | .object h => h, .object⟩

theorem of_members (h : value.Writable) : ∀ m ∈ value.members, m.2.Writable := by
  cases h with
  | object h => exact h
  | _ => exact List.forall_mem_nil _

theorem of_get? (h : value.Writable) : ((value.get? name).getD .null).Writable := by
  cases hget : value.get? name with
  | none => exact .null
  | some found => exact h.of_members _ (List.mem_reverse.mp (mem_of_lookup hget))

/-- Changes that keep values writable can be made one after another. -/
theorem of_mergeMembers (hmembers : ∀ m ∈ members, m.2.Writable)
    (h : ∀ change ∈ changes, ∀ {old : Value}, old.Writable → (old.mergePatch change.2).Writable) :
    ∀ m ∈ mergeMembers members changes, m.2.Writable := by
  induction changes generalizing members with
  | nil => exact hmembers
  | cons change rest ih =>
    obtain ⟨name, change⟩ := change
    obtain ⟨hchange, hrest⟩ := List.forall_mem_cons.mp h
    by_cases hnull : change = .null
    · rw [hnull, mergeMembers_null]
      exact ih (fun m hm => hmembers m (mem_of_mem_removeMember hm)) hrest
    · rw [mergeMembers_cons hnull]
      exact ih (forall_mem_setMember (hchange (of_get? (.object hmembers))) hmembers) hrest

/-- What a patch of such values makes of one can be written too. -/
theorem of_mergePatch (hpatch : patch.Writable) (h : target.Writable) :
    (target.mergePatch patch).Writable := by
  induction hpatch generalizing target with
  | object _ ih => exact .object (of_mergeMembers h.of_members ih)
  -- any other patch takes the place of the value
  | null => exact .null
  | bool b => exact .bool b
  | number hwritten hx => exact .number hwritten hx
  | string s => exact .string s
  | array hitems => exact .array hitems
  | unreadable => exact .unreadable

theorem natural {n : Nat} (h : n < 1 <<< 63) : Writable (.number (.natural n)) := by
  rw [Nat.one_shiftLeft] at h
  have hint : (Int64.ofNat n).toInt = n := Int64.toInt_ofNat_of_lt h
  have hnumber := Numeral.number?_ofInt (Int64.ofNat n)
  rw [hint] at hnumber
  exact .number (Numeral.written_ofInt n) hnumber

end Value.Writable

/-- A numeral without a value: its exponent alone is out of range. -/
def Numeral.tooLarge : Numeral := ⟨false, ['1'], none, some (false, "2147483648".toList)⟩

theorem Numeral.written_tooLarge : tooLarge.Written "1e2147483648".toList := by
  have hlegal : tooLarge.Legal := by
    refine ⟨⟨by decide, List.all_eq_true.mp rfl⟩, ?_, nofun, ?_⟩
    · rintro rest ⟨⟩
    · rintro e ⟨⟩
      exact ⟨by decide, List.all_eq_true.mp rfl⟩
  exact .mk hlegal (.bare (.inl rfl))

theorem Numeral.number?_tooLarge : tooLarge.number? = none := rfl

theorem exists_forall₂ {α β : Type} {R : α → β → Prop} {bs : List β} (h : ∀ b ∈ bs, ∃ a, R a b) :
    ∃ as, List.Forall₂ R as bs := by
  induction bs with
  | nil => exact ⟨[], .nil⟩
  | cons b bs ih =>
    obtain ⟨⟨a, ha⟩, hrest⟩ := List.forall_mem_cons.mp h
    obtain ⟨as, has⟩ := ih hrest
    exact ⟨a :: as, .cons ha has⟩

theorem Value.Writable.exists_utters (h : value.Writable) : ∃ text, Utters text value.tokens := by
  induction h with
  | null =>
    have hword : (['n', 'u', 'l', 'l'], Token.null) ∈ fixedWords := by simp [fixedWords]
    exact ⟨_, .word (.fixed hword)⟩
  | bool b => exact ⟨_, .bool b⟩
  | @number n text x h hx =>
    have hword := Utters.word (.number h)
    rw [hx] at hword
    exact ⟨text, hword⟩
  | string s => exact ⟨_, .string s⟩
  | array _ ih =>
    obtain ⟨texts, htexts⟩ := exists_forall₂ ih
    exact ⟨_, .array htexts⟩
  | @object members _ ih =>
    have hmembers : ∀ m ∈ members, ∃ text, UttersMember text m := by
      intro m hm
      obtain ⟨text, htext⟩ := ih m hm
      exact ⟨_, text, rfl, htext⟩
    obtain ⟨texts, htexts⟩ := exists_forall₂ hmembers
    exact ⟨_, .object htexts⟩
  | unreadable =>
    -- of the words that stand for nothing readable, a number that is too large will do
    have hword := Utters.word (.number Numeral.written_tooLarge)
    rw [Numeral.number?_tooLarge] at hword
    exact ⟨_, hword⟩

theorem Value.Text.ofText?_eq {text : String} (h : value.Text text) : ofText? text = some value := by
  have hread := readValue_tokens [] value []
  rw [List.append_nil] at hread
  rw [ofText?, h.lex_eq, hread]
  rfl

/-- Whatever can be written is read from some text. -/
theorem Value.Writable.exists_text (h : value.Writable) : ∃ text, ofText? text = some value := by
  obtain ⟨text, htext⟩ := h.exists_utters
  exact ⟨String.ofList text, htext.text_ofList.ofText?_eq⟩

end NodeRollout.Json
