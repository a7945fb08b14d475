import NodeRollout.Label
import NodeRollout.Proofs.Trimming

/-! What a label value keeps of a text. Of the text with every other character replaced and cut to
the limit, trimming leaves the core between the first and the last character that may stand at an
end. Texts that are legal labels keep everything, and other texts may have one core. -/
namespace NodeRollout.Label

variable {cs core : List Char} {raw a b : String}

/-- The characters around the core may not stand at an end of a label, and its own ends may. -/
structure IsCore (cs core : List Char) : Prop where
  around : ∃ front back, cs = front ++ core ++ back ∧
    (∀ c ∈ front, isEdge c = false) ∧ ∀ c ∈ back, isEdge c = false
  head : ∀ c ∈ core.head?, isEdge c = true
  last : ∀ c ∈ core.getLast?, isEdge c = true

theorem isCore_iff : IsCore cs core ↔ Text.IsCore (!isEdge ·) cs core := by
  constructor
  · intro h
    exact ⟨by simpa using h.around, by simpa using h.head, by simpa using h.last⟩
  · intro h
    exact ⟨by simpa using h.around, by simpa using h.head, by simpa using h.last⟩

theorem isCore_trim (cs : List Char) : IsCore cs (trim cs) :=
  isCore_iff.mpr (Text.isCore_stripEnds (!isEdge ·) cs)

theorem IsCore.trim_eq (h : IsCore cs core) : trim cs = core := (isCore_iff.mp h).stripEnds_eq

theorem trim_eq_nil_iff : trim cs = [] ↔ ∀ c ∈ cs, isEdge c = false := by
  have hstrip : trim cs = [] ↔ ∀ c ∈ cs, (!isEdge c) = true := Text.stripEnds_eq_nil_iff
  simpa using hstrip

/-- What a label value keeps of a text before its ends are trimmed. -/
def kept (raw : String) : List Char := (raw.toList.map replace).take maxLength

/-- Two texts of which label values keep one core: they differ in characters that labels do not
allow, behind the limit, or in what may not stand at an end. -/
def Alike (a b : String) : Prop := ∃ core, IsCore (kept a) core ∧ IsCore (kept b) core

theorem alike_iff : Alike a b ↔ sanitize maxLength a = sanitize maxLength b := by
  have htexts : sanitize maxLength a = sanitize maxLength b ↔ trim (kept a) = trim (kept b) :=
    String.ofList_inj
  rw [htexts]
  constructor
  · intro h
    obtain ⟨core, ha, hb⟩ := h
    rw [ha.trim_eq, hb.trim_eq]
  · intro h
    exact ⟨trim (kept a), isCore_trim _, h ▸ isCore_trim _⟩

/-- The code points that labels allow: letters, digits, and three marks. -/
theorem toNat_of_isAllowed {c : Char} (h : isAllowed c = true) :
    65 ≤ c.toNat ∧ c.toNat ≤ 90 ∨ 97 ≤ c.toNat ∧ c.toNat ≤ 122 ∨ 48 ≤ c.toNat ∧ c.toNat ≤ 57 ∨
      c.toNat = 45 ∨ c.toNat = 95 ∨ c.toNat = 46 := by
  simp only [isAllowed, Bool.or_eq_true, beq_iff_eq] at h
  rcases h with ((halphanum | rfl) | rfl) | rfl
  · have hranges : c.isAlphanum = (decide (65 ≤ c.val ∧ c.val ≤ 90) ||
        (decide (97 ≤ c.val) && decide (c.val ≤ 122)) ||
        (decide (48 ≤ c.val) && decide (c.val ≤ 57))) := rfl
    simp only [hranges, Bool.or_eq_true, Bool.and_eq_true, decide_eq_true_eq,
      UInt32.le_iff_toNat_le, UInt32.reduceToNat, Char.toNat_val] at halphanum
    omega
  all_goals decide

theorem replace_of_isAllowed {c : Char} (h : isAllowed c = true) : replace c = c := if_pos h

/-- A text in the shape of labels, of at most `limit` characters. -/
def Fits (limit : Nat) (text : List Char) : Prop :=
  text.length ≤ limit ∧ (∀ c ∈ text, isAllowed c) ∧
    (∀ c, text.head? = some c → isEdge c) ∧ (∀ c, text.getLast? = some c → isEdge c)

theorem sanitize_of_fits {limit : Nat} (h : Fits limit raw.toList) : sanitize limit raw = raw := by
  obtain ⟨hlength, hallowed, hhead, hlast⟩ := h
  have hreplaced : raw.toList.map replace = raw.toList := by
    calc raw.toList.map replace
      _ = raw.toList.map id := by
        apply List.map_congr_left
        intro c hc
        exact replace_of_isAllowed (hallowed c hc)
      _ = raw.toList := List.map_id _
  have hcore : IsCore raw.toList raw.toList := by
    constructor
    · exact ⟨[], [], by simp, by simp, by simp⟩
    · exact hhead
    · exact hlast
  rw [sanitize, hreplaced, List.take_of_length_le hlength, hcore.trim_eq, String.ofList_toList]

/-- A legal text is its own label. -/
theorem sanitize_of_isLegal (h : IsLegal raw.toList) : sanitize maxLength raw = raw :=
  sanitize_of_fits h

theorem isLegal_of_ends {text : List Char} {first last : Char}
    (hlength : text.length ≤ maxLength) (hall : text.all isAllowed = true)
    (hhead : text.head? = some first) (hlast : text.getLast? = some last)
    (hedges : isEdge first ∧ isEdge last) : IsLegal text := by
  refine ⟨hlength, List.all_eq_true.mp hall, fun c hc => ?_, fun c hc => ?_⟩
  · rw [← Option.some.inj (hhead.symm.trans hc)]
    exact hedges.1
  · rw [← Option.some.inj (hlast.symm.trans hc)]
    exact hedges.2

end NodeRollout.Label
