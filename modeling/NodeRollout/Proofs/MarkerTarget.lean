import NodeRollout.Proofs.Eligibility
import NodeRollout.Proofs.LegalText
import NodeRollout.Proofs.SyncDecision

/-! Whether a marker tells its target from another one. Its value is the legal text that is nearest
to the target, so a marker for one target is stale for the other exactly when the two texts are not
alike. Targets that are legal texts themselves are told apart. -/
namespace NodeRollout

variable {h : History} {node : Node}

/-- A write that is carried out applies the plan to the record that it finds, also in an update that
is left early. -/
theorem LabelUpdate.assures_applies {plan : LabelPlan} (hnode : node ∈ h.records) :
    Assures History.shared (fun m => m.event.isWritten = true → Applies plan node.name m)
      (run node plan).run (fun _ _ => True) h := by
  apply assures_attempt_seen (P := fun seen s => seen ∈ s.records ∧ seen.name = node.name)
    (K := fun _ _ => True) (D := fun _ _ => True)
  · intro seen s t hothers hseen
    exact ⟨History.Extends.mem hothers hseen.1, hseen.2⟩
  · exact fun _ _ => trivial
  · exact fun _ _ => trivial
  · exact fun _ => trivial
  · exact fun _ _ _ => trivial
  · intro n s seen answer t hseen _ hplan hserves
    constructor
    · intro hwritten
      have hok : answer = .ok () := by
        cases answer with
        | ok => rfl
        | error failure => exact absurd hwritten Bool.false_ne_true
      have hwrites : s.Writes seen (plan seen) t := hserves.1.resolve_right fun hno => hno.2 hok
      rw [← hseen.2]
      exact applies_of_writes hseen.1 hwrites _
    · split <;> trivial
  · intro n s answer t _ hserves
    constructor
    · intro hwritten
      exact absurd hwritten Bool.false_ne_true
    · cases answer with
      | ok seen =>
        have hfind : s.find? node.name = some seen := hserves.1.2 seen rfl
        have hsame : t = s := hserves.1.1
        rw [hsame]
        exact ⟨⟨History.mem_records hfind, History.name_of_find? hfind⟩, trivial⟩
      | error failure => trivial
  · exact ⟨hnode, rfl⟩
  · trivial

namespace Pass

variable {spec other : Spec}

/-- The selection of a node leaves the value for the target on it, also where it was there
before. -/
theorem marker?_selectPlan (spec : Spec) (node : Node) (version : Option String) :
    (node.relabel (selectPlan spec node) version).marker? = some spec.selectionValue := by
  cases hselected : node.isSelectedFor spec with
  | false => exact Node.relabel_marker? (get?_selectPlan hselected).1
  | true =>
    have hplan : selectPlan spec node = ∅ := if_pos hselected
    have hmarker : node.marker? = some spec.selectionValue := Node.isSelectedFor_iff.mp hselected
    rw [hplan]
    exact hmarker

theorem assures_select_applies (hnode : node ∈ h.records) :
    Assures History.shared
      (fun m => m.event.isWritten = true → LabelUpdate.Applies (selectPlan spec) node.name m)
      (select spec node).run (fun _ _ => True) h := by
  apply assures_select_of_update (K := fun _ => True)
  · exact ⟨fun _ _ => trivial, fun _ _ _ => trivial⟩
  · intro s c answer t hread _ _ hwritten
    cases c with
    | patch => cases hread
    | _ => cases hwritten
  · exact LabelUpdate.assures_applies hnode

/-- However the selection of a node for `spec` goes, and whatever happens to the node afterwards: as
long as it has the marker that it was given, it is not selected for `other`, and the marker is
stale. -/
def NamesTarget (spec other : Spec) : Prop :=
  ∀ (node : Node) (h h' : History) (ms : List (Moment Cluster History))
    (p : Program Cluster (Except Failure Unit)), node ∈ h.records →
    Course History.shared h (select spec node).run ms h' p →
    ∀ m ∈ ms, m.event.isWritten = true → ∀ marked, m.after.find? node.name = some marked →
    ∀ later : Node, later.marker? = marked.marker? →
      later.isSelectedFor other = false ∧ later.hasStaleSelection other = true

theorem namesTarget_of_not_alike (hdiffer : ¬ Label.Alike spec.target other.target) :
    NamesTarget spec other := by
  intro node h h' ms p hnode hcourse m hm hwritten marked hmarked later hlater
  have happlies := ((assures_select_applies hnode).course hcourse).2 m hm hwritten
  obtain ⟨old, version, -, hafter⟩ := happlies
  have hrecord : marked = old.relabel (selectPlan spec old) version :=
    Option.some.inj (hmarked.symm.trans hafter)
  have hmarker : later.marker? = some spec.selectionValue := by
    rw [hlater, hrecord, marker?_selectPlan]
  have hvalues : spec.selectionValue ≠ other.selectionValue := by
    intro hsame
    apply hdiffer
    exact Label.alike_iff.mpr hsame
  have hfor : later.isSelectedFor other = false := by
    apply Bool.eq_false_iff.mpr
    intro hselected
    have hother := Node.isSelectedFor_iff.mp hselected
    exact hvalues (Option.some.inj (hmarker.symm.trans hother))
  have hselected : later.isSelected = true := by
    have hget : later.labels.get? Label.selection = some spec.selectionValue := hmarker
    rw [Node.isSelected, LabelMap.contains, hget, Option.isSome_some]
  exact ⟨hfor, by rw [Node.hasStaleSelection, hselected, hfor, Bool.not_false, Bool.and_true]⟩

/-- A selection that meets no conflict writes at once. -/
theorem makes_select (hfind : h.find? node.name = some node)
    (hselected : node.isSelectedFor spec = false) :
    ∃ after, h.Writes node (selectPlan spec node) after ∧
      Makes History.shared (select spec node).run
      ⟨h, ⟨.patch node (selectPlan spec node), .ok ()⟩, after⟩ h := by
  obtain ⟨after, hwrites⟩ := History.exists_writes (selectPlan spec node) hfind
  have hplan : (selectPlan spec node).isEmpty = false := isEmpty_selectPlan.trans hselected
  have hserves : History.shared.Serves h (.patch node (selectPlan spec node)) (.ok ()) after :=
    ⟨.inl hwrites, by simp [History.Sincere]⟩
  have hupdate : Course History.shared h (LabelUpdate.run node (selectPlan spec)).run
      [⟨h, ⟨.patch node (selectPlan spec node), .ok ()⟩, after⟩] after (.done (.ok true)) := by
    rw [LabelUpdate.run, LabelUpdate.maxAttempts, LabelUpdate.attempt_succ,
      if_neg (by simp [hplan])]
    exact .call hserves (.stay _ _)
  refine ⟨after, hwrites, ?_⟩
  apply Makes.attempt
  exact ⟨_, after, _, hupdate, List.mem_singleton.mpr rfl⟩

theorem not_namesTarget_of_alike (halike : Label.Alike spec.target other.target) :
    ¬ NamesTarget spec other := by
  intro hnames
  -- a worker without labels, alone in its cluster
  let node : Node := { name := "w1", resourceVersion := some "1" }
  let h : History := alone node rfl
  have hfind : h.find? node.name = some node := by
    rw [find?_alone, if_pos rfl]
  have hunselected : node.isSelectedFor spec = false := rfl
  obtain ⟨after, hwrites, ms, h', p, hcourse, hm⟩ := makes_select hfind hunselected
  obtain ⟨old, version, hold, hafter⟩ := hwrites.find?
  have hsame : old = node := Option.some.inj (hold.symm.trans hfind)
  have hmarked : after.find? node.name = some (node.relabel (selectPlan spec node) version) := by
    rw [hafter, if_pos rfl, hsame]
  have hnot :=
    (hnames node h h' ms p (History.mem_records hfind) hcourse _ hm rfl _ hmarked _ rfl).1
  have hvalues : spec.selectionValue = other.selectionValue := Label.alike_iff.mp halike
  have hselected : (node.relabel (selectPlan spec node) version).isSelectedFor other = true := by
    rw [Node.isSelectedFor_iff, marker?_selectPlan, hvalues]
  rw [hselected] at hnot
  cases hnot

/-- A marker names its target exactly as far as the texts of the two targets are not alike. Between
two targets that are legal label texts it always tells. -/
theorem namesTarget_iff (spec other : Spec) :
    (NamesTarget spec other ↔ ¬ Label.Alike spec.target other.target) ∧
    (Label.IsLegal spec.target.toList → Label.IsLegal other.target.toList →
      spec.target ≠ other.target → NamesTarget spec other) := by
  constructor
  · constructor
    · intro hnames halike
      exact not_namesTarget_of_alike halike hnames
    · exact namesTarget_of_not_alike
  · intro hspec hother hdiffer
    apply namesTarget_of_not_alike
    intro halike
    have hvalues := Label.alike_iff.mp halike
    rw [Label.sanitize_of_isLegal hspec, Label.sanitize_of_isLegal hother] at hvalues
    exact hdiffer hvalues

def kubeSpec (version : String) : Spec := { kubeVersion := version }

/-- Two plain versions are told apart. -/
theorem namesTarget_iff_versions : NamesTarget (kubeSpec "v1.29.1") (kubeSpec "v1.30.0") := by
  apply (namesTarget_iff (kubeSpec "v1.29.1") (kubeSpec "v1.30.0")).2
  · exact Label.isLegal_of_ends (by decide) (by decide) rfl rfl (by decide)
  · exact Label.isLegal_of_ends (by decide) (by decide) rfl rfl (by decide)
  · decide

/-- A build behind a plus sign and one behind a minus sign have one marker. -/
theorem not_namesTarget_of_builds :
    ¬ ∀ spec other : Spec, spec.isNoop = false → other.isNoop = false →
      spec.target ≠ other.target → NamesTarget spec other := by
  intro hnames
  have halike : Label.Alike (kubeSpec "v1.29.1+k3s1").target (kubeSpec "v1.29.1-k3s1").target := by
    apply Label.alike_iff.mpr
    decide
  apply not_namesTarget_of_alike halike
  exact hnames _ _ (by decide) (by decide) (by decide)

end Pass

end NodeRollout
