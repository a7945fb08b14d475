import Mathlib.Data.List.TakeWhile
import NodeRollout.Text.Blank

/-! What is left of a text whose ends are stripped: its core, which lies between characters that go
and has none of them at its own ends. A text has one core, and what is put around it out of such
characters does not change it. -/
namespace NodeRollout.Text

variable {drop : Char → Bool} {cs core front back : List Char}

/-- The characters around the core go, and those at its ends stay. -/
structure IsCore (drop : Char → Bool) (cs core : List Char) : Prop where
  around : ∃ front back, cs = front ++ core ++ back ∧
    (∀ c ∈ front, drop c = true) ∧ ∀ c ∈ back, drop c = true
  head : ∀ c ∈ core.head?, drop c = false
  last : ∀ c ∈ core.getLast?, drop c = false

theorem IsCore.isInfix (h : IsCore drop cs core) : core <:+: cs := by
  obtain ⟨front, back, hcs, -, -⟩ := h.around
  exact ⟨front, back, hcs.symm⟩

theorem dropWhile_of_head (h : ∀ c ∈ cs.head?, drop c = false) : cs.dropWhile drop = cs := by
  cases cs with
  | nil => rfl
  | cons c cs =>
    apply List.dropWhile_cons_of_neg
    rw [h c rfl]
    exact Bool.false_ne_true

theorem of_head_dropWhile {c : Char} (h : c ∈ (cs.dropWhile drop).head?) : drop c = false := by
  have hnot : (fun c => !(!drop c)) = drop := by
    funext c
    exact Bool.not_not (drop c)
  have hfind : cs.find? (!drop ·) = some c := by
    rw [List.find?_eq_head?_dropWhile_not, hnot]
    exact h
  have hstays := List.find?_some hfind
  simpa using hstays

theorem isCore_stripEnds (drop : Char → Bool) (cs : List Char) :
    IsCore drop cs (stripEnds drop cs) := by
  let rest := cs.dropWhile drop
  let back := (rest.reverse.takeWhile drop).reverse
  have hrest : rest = stripEnds drop cs ++ back := by
    have hsplit := List.takeWhile_append_dropWhile (p := drop) (l := rest.reverse)
    have hreverse := congrArg List.reverse hsplit
    rw [List.reverse_append, List.reverse_reverse] at hreverse
    exact hreverse.symm
  constructor
  · refine ⟨cs.takeWhile drop, back, ?_, fun c => List.mem_takeWhile_imp, ?_⟩
    · rw [List.append_assoc, ← hrest]
      exact List.takeWhile_append_dropWhile.symm
    · intro c hc
      apply List.mem_takeWhile_imp
      exact List.mem_reverse.mp hc
  · intro c hc
    -- the core begins where the rest of the text does
    have hhead : c ∈ rest.head? := by
      rw [hrest, List.head?_append, Option.mem_def.mp hc]
      exact Option.mem_def.mpr rfl
    exact of_head_dropWhile hhead
  · intro c hc
    rw [stripEnds, List.getLast?_reverse] at hc
    exact of_head_dropWhile hc

theorem stripEnds_eq_nil_iff : stripEnds drop cs = [] ↔ ∀ c ∈ cs, drop c = true := by
  constructor
  · intro hnil
    obtain ⟨front, back, hcs, hfront, hback⟩ := (isCore_stripEnds drop cs).around
    rw [hnil, List.append_nil] at hcs
    rw [hcs]
    exact List.forall_mem_append.mpr ⟨hfront, hback⟩
  · intro hall
    have hdrop : cs.dropWhile drop = [] := List.dropWhile_eq_nil_iff.mpr hall
    rw [stripEnds, hdrop]
    rfl

theorem IsCore.stripEnds_eq (h : IsCore drop cs core) : stripEnds drop cs = core := by
  obtain ⟨front, back, rfl, hfront, hback⟩ := h.around
  by_cases hempty : core = []
  · subst hempty
    rw [List.append_nil]
    exact stripEnds_eq_nil_iff.mpr (List.forall_mem_append.mpr ⟨hfront, hback⟩)
  · have hhead : ∀ c ∈ (core ++ back).head?, drop c = false := by
      cases core with
      | nil => exact absurd rfl hempty
      | cons c core => exact h.head
    have hlast : ∀ c ∈ core.reverse.head?, drop c = false := by
      rw [List.head?_reverse]
      exact h.last
    have hback' : ∀ c ∈ back.reverse, drop c = true := by
      intro c hc
      exact hback c (List.mem_reverse.mp hc)
    rw [stripEnds, List.append_assoc, List.dropWhile_append_of_pos hfront, dropWhile_of_head hhead,
      List.reverse_append, List.dropWhile_append_of_pos hback', dropWhile_of_head hlast,
      List.reverse_reverse]

/-- A text whose ends stay is left as it is. -/
theorem stripEnds_of_ends (hhead : ∀ c ∈ cs.head?, drop c = false)
    (hlast : ∀ c ∈ cs.getLast?, drop c = false) : stripEnds drop cs = cs := by
  have hcore : IsCore drop cs cs := ⟨⟨[], [], by simp, by simp, by simp⟩, hhead, hlast⟩
  exact hcore.stripEnds_eq

/-- What is put around a text out of characters that go does not matter. -/
theorem stripEnds_around (hfront : ∀ c ∈ front, drop c = true) (hback : ∀ c ∈ back, drop c = true) :
    stripEnds drop (front ++ cs ++ back) = stripEnds drop cs := by
  have hcore := isCore_stripEnds drop cs
  obtain ⟨inner, outer, hcs, hinner, houter⟩ := hcore.around
  have hwider : IsCore drop (front ++ cs ++ back) (stripEnds drop cs) := by
    refine ⟨⟨front ++ inner, outer ++ back, ?_, ?_, ?_⟩, hcore.head, hcore.last⟩
    · calc front ++ cs ++ back
        _ = front ++ (inner ++ stripEnds drop cs ++ outer) ++ back :=
            congrArg (fun text => front ++ text ++ back) hcs
        _ = front ++ inner ++ stripEnds drop cs ++ (outer ++ back) := by
            simp only [List.append_assoc]
    · exact List.forall_mem_append.mpr ⟨hfront, hinner⟩
    · exact List.forall_mem_append.mpr ⟨houter, hback⟩
  exact hwider.stripEnds_eq

end NodeRollout.Text
