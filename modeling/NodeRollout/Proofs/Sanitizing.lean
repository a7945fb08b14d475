import Mathlib.Data.List.Basic
import NodeRollout.Proofs.LegalText
import NodeRollout.Spec

/-! What becomes of a text on its way into a label. The replaced text has one byte for each
character, so the cut to the limit falls between two of them, and what is left between the trimmed
ends has the shape of a label and stays as it is from then on. A completion label behind its fixed
start is legal unless nothing is left of the version. -/
namespace NodeRollout.Label

variable {cs : List Char}

theorem isAllowed_replace (c : Char) : isAllowed (replace c) = true := by
  by_cases h : isAllowed c = true
  · rw [replace_of_isAllowed h]
    exact h
  · rw [replace, if_neg h]
    decide

/-- A character may stand at an end exactly when what replaces it may. -/
theorem isEdge_replace (c : Char) : isEdge (replace c) = isEdge c := by
  by_cases h : isAllowed c = true
  · rw [replace_of_isAllowed h]
  · have hedge : isEdge c = false := by
      simp only [isAllowed, Bool.or_eq_true, not_or] at h
      exact Bool.eq_false_iff.mpr h.1.1.1
    rw [replace, if_neg h, hedge]
    decide

theorem utf8Size_of_isAllowed {c : Char} (h : isAllowed c = true) : c.utf8Size = 1 := by
  have hcode := toNat_of_isAllowed h
  have hone : c.val.toNat ≤ 127 := by
    rw [Char.toNat_val]
    omega
  exact if_pos hone

theorem utf8ByteSize_of_allowed (h : ∀ c ∈ cs, isAllowed c = true) :
    (String.ofList cs).utf8ByteSize = cs.length := by
  induction cs with
  | nil => rfl
  | cons c cs ih =>
    obtain ⟨hc, hcs⟩ := List.forall_mem_cons.mp h
    rw [String.ofList_cons, String.utf8ByteSize_append, String.utf8ByteSize_singleton, ih hcs,
      utf8Size_of_isAllowed hc, List.length_cons, Nat.add_comm]

/-- The text with every other character replaced. -/
def replaced (raw : String) : String := String.ofList (raw.toList.map replace)

/-- Of this text the first `limit` bytes are kept, and they end between two characters. -/
structure Cuts (limit : Nat) (text kept : String) : Prop where
  whole : ∃ rest, text = kept ++ rest
  bytes : kept.utf8ByteSize = min limit text.utf8ByteSize

theorem cuts_replaced (limit : Nat) (raw : String) :
    Cuts limit (replaced raw) (String.ofList ((raw.toList.map replace).take limit)) := by
  have hall : ∀ c ∈ raw.toList.map replace, isAllowed c = true :=
    List.forall_mem_map.mpr fun c _ => isAllowed_replace c
  have hkept : ∀ c ∈ (raw.toList.map replace).take limit, isAllowed c = true :=
    fun c hc => hall c (List.mem_of_mem_take hc)
  constructor
  · refine ⟨String.ofList ((raw.toList.map replace).drop limit), ?_⟩
    rw [← String.ofList_append, List.take_append_drop, replaced]
  · rw [utf8ByteSize_of_allowed hkept, replaced, utf8ByteSize_of_allowed hall, List.length_take]

theorem fits_sanitize (limit : Nat) (raw : String) : Fits limit (sanitize limit raw).toList := by
  have hcore := isCore_trim ((raw.toList.map replace).take limit)
  have hpart := (isCore_iff.mp hcore).isInfix
  rw [sanitize, String.toList_ofList]
  refine ⟨?_, ?_, hcore.head, hcore.last⟩
  · exact Nat.le_trans hpart.length_le (List.length_take_le _ _)
  · intro c hc
    obtain ⟨a, -, rfl⟩ := List.mem_map.mp (List.mem_of_mem_take (hpart.subset hc))
    exact isAllowed_replace a

theorem sanitize_eq_nil_iff (limit : Nat) (raw : String) :
    (sanitize limit raw).toList = [] ↔ ∀ c ∈ raw.toList.take limit, isEdge c = false := by
  rw [sanitize, String.toList_ofList, trim_eq_nil_iff, ← List.map_take, List.forall_mem_map]
  simp only [isEdge_replace]

/-- How texts are sanitized under a limit. -/
structure Sanitizes (limit : Nat) : Prop where
  cut : ∀ raw, ∃ kept, Cuts limit (replaced raw) kept ∧
    kept.toList = (raw.toList.take limit).map replace ∧
    sanitize limit raw = String.ofList (trim kept.toList)
  shape : ∀ raw, Fits limit (sanitize limit raw).toList
  idempotent : ∀ raw, sanitize limit (sanitize limit raw) = sanitize limit raw
  keeps : ∀ raw : String, Fits limit raw.toList → sanitize limit raw = raw

theorem sanitizes (limit : Nat) : Sanitizes limit where
  cut raw := by
    refine ⟨_, cuts_replaced limit raw, ?_, ?_⟩
    · rw [String.toList_ofList, List.map_take]
    · rw [String.toList_ofList, sanitize]
  shape := fits_sanitize limit
  idempotent raw := sanitize_of_fits (fits_sanitize limit raw)
  keeps _ := sanitize_of_fits

/-- A legal label name: a legal text that is not empty. -/
def IsLegalName (text : List Char) : Prop := text ≠ [] ∧ IsLegal text

/-- The part of a completion label behind the slash. -/
def completedName (version : String) : String := "completed-" ++ sanitize completedRoom version

theorem completed_eq (version : String) :
    completed version = "nodeup.io/" ++ completedName version := by
  have hstart : completedStart = "nodeup.io/" ++ "completed-" := by decide
  rw [completed, completedName, hstart, String.append_assoc]

theorem fits_completedName (version : String) :
    (completedName version).toList.length ≤ maxLength ∧
      ∀ c ∈ (completedName version).toList, isAllowed c = true := by
  obtain ⟨hlength, hallowed, -, -⟩ := fits_sanitize completedRoom version
  have hroom : "completed-".toList.length + completedRoom = maxLength := by decide
  have hstart : ∀ c ∈ "completed-".toList, isAllowed c = true := List.all_eq_true.mp (by decide)
  rw [completedName, String.toList_append]
  constructor
  · rw [List.length_append]
    omega
  · exact List.forall_mem_append.mpr ⟨hstart, hallowed⟩

/-- The name begins with a letter. It ends as the version does, or with the dash before it if
nothing is left of the version. -/
theorem isLegalName_completedName (version : String) :
    IsLegalName (completedName version).toList ↔
      ∃ c ∈ version.toList.take completedRoom, isEdge c = true := by
  have hnone := sanitize_eq_nil_iff completedRoom version
  obtain ⟨hlength, hallowed⟩ := fits_completedName version
  obtain ⟨-, -, -, hlast⟩ := fits_sanitize completedRoom version
  rw [completedName, String.toList_append] at hlength hallowed ⊢
  constructor
  · intro hlegal
    by_contra hno
    have hnil : (sanitize completedRoom version).toList = [] := by
      apply hnone.mpr
      intro c hc
      exact Bool.eq_false_iff.mpr fun hedge => hno ⟨c, hc, hedge⟩
    rw [hnil, List.append_nil] at hlegal
    have hdash : isEdge '-' = true := hlegal.2.2.2.2 '-' (by decide)
    exact absurd hdash (by decide)
  · rintro ⟨c, hc, hedge⟩
    have hsome : (sanitize completedRoom version).toList ≠ [] := by
      intro hnil
      have hno := hnone.mp hnil c hc
      rw [hedge] at hno
      cases hno
    refine ⟨by simp, hlength, hallowed, ?_, ?_⟩
    · intro first hfirst
      have hc' : 'c' = first := Option.some.inj hfirst
      rw [← hc']
      decide
    · intro last hlast'
      rw [List.getLast?_append_of_ne_nil _ hsome] at hlast'
      exact hlast last hlast'

/-- The labels of a rollout are legal. The value of a marker always is. The name of a completion
label is made of what a name may hold, and is a name unless no letter or digit stands where the
version is looked at. Under every limit a text is cut between two characters, and sanitized for
good; legal texts stay. -/
theorem labels_legal :
    (∀ spec : Spec, IsLegal spec.selectionValue.toList) ∧
    (∀ version : String, ∃ name : String, completed version = "nodeup.io/" ++ name ∧
      name.toList.length ≤ 63 ∧ (∀ c ∈ name.toList, isAllowed c) ∧
      (IsLegalName name.toList ↔ ∃ c ∈ version.toList.take 53, c.isAlphanum)) ∧
    ∀ limit, Sanitizes limit := by
  refine ⟨fun spec => fits_sanitize maxLength spec.target, ?_, sanitizes⟩
  intro version
  obtain ⟨hlength, hallowed⟩ := fits_completedName version
  exact ⟨completedName version, completed_eq version, hlength, hallowed,
    isLegalName_completedName version⟩

/-- A text of ten characters stays as it is under a limit of ten. -/
theorem labels_legal_fitting :
    Fits 10 "v1.30.0-b1".toList ∧ sanitize 10 "v1.30.0-b1" = "v1.30.0-b1" := by
  have hfits : Fits 10 "v1.30.0-b1".toList := by
    refine ⟨by decide, List.all_eq_true.mp (by decide), ?_, ?_⟩
    · intro c hc
      rw [← Option.some.inj hc]
      decide
    · intro c hc
      rw [← Option.some.inj hc]
      decide
  exact ⟨hfits, (labels_legal.2.2 10).keeps "v1.30.0-b1" hfits⟩

end NodeRollout.Label
