import NodeRollout.Proofs.Assurance
import NodeRollout.Sync

/-! What the two control loops do to the markers of one target. A sync only takes markers away. A
pass sets a marker only where the order of the rollout permits it: on a control-plane node while
no other one is under way, on a worker while every control-plane node is at the target and no
other node at all is under way. Both hold against any interference that sets no marker of that
target, leaves the roles as they are and takes no node off its target. -/
namespace NodeRollout

namespace Program.Event

def isPush : Event Cluster → Bool
  | ⟨.push _, _⟩ => true
  | _ => false

end Program.Event

namespace Label

/-- Only a name with the start of a completion label can be one. -/
theorem completed_ne {name : String} (hstart : ¬ completedStart.toList <+: name.toList)
    (version : String) : completed version ≠ name := by
  intro h
  apply hstart
  rw [← h, completed, String.toList_append]
  exact List.prefix_append ..

theorem completed_ne_controlPlane (version : String) : completed version ≠ controlPlane :=
  completed_ne (by decide) version

theorem completed_ne_selection (version : String) : completed version ≠ selection :=
  completed_ne (by decide) version

end Label

namespace Node

theorem relabel_isControlPlane {node : Node} {changes : LabelChanges} {version : Option String}
    (h : changes.get? Label.controlPlane = none) :
    (node.relabel changes version).isControlPlane = node.isControlPlane := by
  simp only [isControlPlane, LabelMap.contains, relabel, Labels.get?_apply, h, Option.getD_none]

def marker? (node : Node) : Option String := node.labels.get? Label.selection

theorem isSelectedFor_iff {node : Node} {spec : Spec} :
    node.isSelectedFor spec = true ↔ node.marker? = some spec.selectionValue := beq_iff_eq

theorem relabel_marker? {node : Node} {changes : LabelChanges} {version : Option String}
    {value : Option String} (h : changes.get? Label.selection = some value) :
    (node.relabel changes version).marker? = value := by
  simp only [marker?, relabel, Labels.get?_apply, h, Option.getD_some]

end Node

namespace Pass

theorem get?_selectPlan {spec : Spec} {node : Node} (h : node.isSelectedFor spec = false) :
    (selectPlan spec node).get? Label.selection = some (some spec.selectionValue) ∧
      (selectPlan spec node).get? Label.controlPlane = none := by
  simp [selectPlan, h, Label.selection, Label.controlPlane]

theorem isEmpty_selectPlan {spec : Spec} {node : Node} :
    (selectPlan spec node).isEmpty = node.isSelectedFor spec := by
  cases h : node.isSelectedFor spec <;> simp [selectPlan, h]

end Pass

namespace Sync

/-- The changes take the marker away and leave the role as it is. -/
def Unmarks (changes : LabelChanges) : Prop :=
  changes.get? Label.selection = some none ∧ changes.get? Label.controlPlane = none

theorem unmarks_releasePlan {spec : Spec} {node : Node}
    (h : (releasePlan spec node).isEmpty = false) : Unmarks (releasePlan spec node) := by
  by_cases hstale : node.hasStaleSelection spec = true
  · simp [releasePlan, hstale, Unmarks, Label.selection, Label.controlPlane]
  · simp [releasePlan, hstale] at h

theorem unmarks_clearPlan {spec : Spec} {node : Node}
    (h : (clearPlan spec node).isEmpty = false) : Unmarks (clearPlan spec node) := by
  by_cases hselected : node.isSelected = true
  · -- the completion label that is set beside is another one than both
    have hselection := (Label.completed_ne_selection spec.kubeVersion).symm
    have hrole := (Label.completed_ne_controlPlane spec.kubeVersion).symm
    have hne : Label.controlPlane ≠ Label.selection := by decide
    by_cases hkube : spec.kubeVersion.isEmpty = true
    · simp [clearPlan, hselected, hkube, Unmarks, hne]
    · simp [clearPlan, hselected, hkube, Unmarks, hselection, hrole, hne]
  · simp [clearPlan, hselected] at h

end Sync

namespace History

variable {spec : Spec} {h h' h'' : History}

/-- No marker is set, no node leaves the target, and no node changes its role. -/
def Calm (spec : Spec) (h h' : History) : Prop :=
  ∀ name new, h'.find? name = some new → ∃ old, h.find? name = some old ∧
    new.isControlPlane = old.isControlPlane ∧
    (∀ value, new.marker? = some value → old.marker? = some value) ∧
    (new.needsUpgrade spec = true → old.needsUpgrade spec = true)

theorem Calm.refl (spec : Spec) (h : History) : Calm spec h h :=
  fun _ new hnew => ⟨new, hnew, rfl, fun _ => id, id⟩

theorem Calm.trans (a : Calm spec h h') (b : Calm spec h' h'') : Calm spec h h'' := by
  intro name new hnew
  obtain ⟨mid, hmid, hrole, hmarker, hneeds⟩ := b name new hnew
  obtain ⟨old, hold, hrole', hmarker', hneeds'⟩ := a name mid hmid
  refine ⟨old, hold, hrole.trans hrole', ?_, hneeds' ∘ hneeds⟩
  intro value hvalue
  exact hmarker' value (hmarker value hvalue)

theorem Writes.calm {seen : Node} {changes : LabelChanges} (hw : h.Writes seen changes h')
    (hchanges : Sync.Unmarks changes) : Calm spec h h' := by
  intro name new hnew
  obtain ⟨old, version, hold, hafter⟩ := hw.find?
  rw [hafter] at hnew
  split at hnew
  next hname =>
    obtain rfl := Option.some.inj hnew
    refine ⟨old, hname ▸ hold, Node.relabel_isControlPlane hchanges.2, ?_, id⟩
    intro value hvalue
    rw [Node.relabel_marker? hchanges.1] at hvalue
    cases hvalue
  next => exact ⟨new, hnew, rfl, fun _ => id, id⟩

def ControlPlaneDone (spec : Spec) (h : History) : Prop :=
  ∀ name node, h.find? name = some node → node.isControlPlane = true →
    node.needsUpgrade spec = false

/-- The control-plane nodes are at the target, and no node but this one is under way. -/
def OnlyUnderWay (spec : Spec) (name : String) (h : History) : Prop :=
  h.ControlPlaneDone spec ∧ ∀ other node, h.find? other = some node →
    node.isUnderWay spec = true → other = name

/-- The order of the rollout permits to mark the node. -/
def MayMark (spec : Spec) (name : String) (h : History) : Prop :=
  (∀ other node, h.find? other = some node → node.isControlPlane = true →
    node.isUnderWay spec = true → other = name) ∧
  (∀ node, h.find? name = some node → node.isControlPlane = false → h.OnlyUnderWay spec name)

/-- The node is marked for the target, and nothing else happens. -/
def Marks (spec : Spec) (name : String) (h h' : History) : Prop :=
  ∀ other new, h'.find? other = some new → ∃ old, h.find? other = some old ∧
    new.isControlPlane = old.isControlPlane ∧
    (∀ value, new.marker? = some value →
      old.marker? = some value ∨ other = name ∧ value = spec.selectionValue) ∧
    (new.needsUpgrade spec = true → old.needsUpgrade spec = true)

/-- What a pass does to the nodes by one call. -/
def Proceeds (spec : Spec) (h h' : History) : Prop :=
  Calm spec h h' ∨ ∃ name, h.MayMark spec name ∧ Marks spec name h h'

theorem Calm.selected {name : String} {new : Node} (hcalm : Calm spec h h')
    (hnew : h'.find? name = some new) (hselected : new.isSelectedFor spec = true) :
    ∃ old, h.find? name = some old ∧ new.isControlPlane = old.isControlPlane ∧
      old.isSelectedFor spec = true ∧
      (new.needsUpgrade spec = true → old.needsUpgrade spec = true) := by
  obtain ⟨old, hold, hrole, hmarker, hneeds⟩ := hcalm name new hnew
  have hvalue := hmarker _ (Node.isSelectedFor_iff.mp hselected)
  exact ⟨old, hold, hrole, Node.isSelectedFor_iff.mpr hvalue, hneeds⟩

theorem Calm.marks (name : String) (hcalm : Calm spec h h') : Marks spec name h h' := by
  intro other new hnew
  obtain ⟨old, hold, hrole, hmarker, hneeds⟩ := hcalm other new hnew
  exact ⟨old, hold, hrole, fun value hvalue => .inl (hmarker value hvalue), hneeds⟩

theorem Marks.selected {name other : String} {new : Node} (hm : Marks spec name h h')
    (hnew : h'.find? other = some new) (hselected : new.isSelectedFor spec = true) :
    other = name ∨ ∃ old, h.find? other = some old ∧ new.isControlPlane = old.isControlPlane ∧
      old.isSelectedFor spec = true ∧
      (new.needsUpgrade spec = true → old.needsUpgrade spec = true) := by
  obtain ⟨old, hold, hrole, hmarker, hneeds⟩ := hm other new hnew
  rcases hmarker _ (Node.isSelectedFor_iff.mp hselected) with hs | ⟨hname, -⟩
  · exact .inr ⟨old, hold, hrole, Node.isSelectedFor_iff.mpr hs, hneeds⟩
  · exact .inl hname

theorem Marks.controlPlaneDone {name : String} (hm : Marks spec name h h')
    (hdone : h.ControlPlaneDone spec) : h'.ControlPlaneDone spec := by
  intro other new hnew hrole
  obtain ⟨old, hold, hsame, -, hneeds⟩ := hm other new hnew
  have hat := hdone other old hold (hsame ▸ hrole)
  cases hnew' : new.needsUpgrade spec with
  | false => rfl
  | true => simp [hneeds hnew'] at hat

theorem Marks.underWay {name other : String} {new : Node} (hm : Marks spec name h h')
    (hnew : h'.find? other = some new) (hway : new.isUnderWay spec = true) :
    other = name ∨ ∃ old, h.find? other = some old ∧ old.isControlPlane = new.isControlPlane ∧
      old.isUnderWay spec = true := by
  rw [Node.isUnderWay, Bool.and_eq_true] at hway
  rcases hm.selected hnew hway.1 with hname | ⟨old, hold, hrole, hselected, hneeds⟩
  · exact .inl hname
  · exact .inr ⟨old, hold, hrole.symm, by simp [Node.isUnderWay, hselected, hneeds hway.2]⟩

theorem Marks.onlyUnderWay {name : String} (hm : Marks spec name h h')
    (honly : h.OnlyUnderWay spec name) : h'.OnlyUnderWay spec name := by
  refine ⟨hm.controlPlaneDone honly.1, ?_⟩
  intro other new hnew hway
  rcases hm.underWay hnew hway with hname | ⟨old, hold, -, hway'⟩
  · exact hname
  · exact honly.2 other old hold hway'

theorem Marks.mayMark {name : String} (hm : Marks spec name h h') (hmay : h.MayMark spec name) :
    h'.MayMark spec name := by
  refine ⟨?_, ?_⟩
  · intro other new hnew hrole hway
    rcases hm.underWay hnew hway with hname | ⟨old, hold, hsame, hway'⟩
    · exact hname
    · exact hmay.1 other old hold (hsame.trans hrole) hway'
  · intro new hnew hrole
    obtain ⟨old, hold, hsame, -, -⟩ := hm name new hnew
    exact hm.onlyUnderWay (hmay.2 old hold (hsame.symm.trans hrole))

theorem OnlyUnderWay.mayMark {name : String} (honly : h.OnlyUnderWay spec name) :
    h.MayMark spec name :=
  ⟨fun other node hnode _ hway => honly.2 other node hnode hway, fun _ _ _ => honly⟩

/-- The stored nodes, shared with others that do only what `R` allows. -/
def among (R : History → History → Prop) (idle : ∀ h, R h h)
    (chain : ∀ {h h' h''}, R h h' → R h' h'' → R h h'') : Setting Cluster History where
  Serves := Serves
  Others := R
  idle := idle
  chain := chain

abbrev calmly (spec : Spec) : Setting Cluster History :=
  among (Calm spec) (Calm.refl spec) Calm.trans

abbrev freely : Setting Cluster History :=
  among (fun _ _ => True) (fun _ => trivial) (fun _ _ => trivial)

theorem Serves.eq_of_read {c : ClusterCall} {answer : c.Answer} (hs : h.Serves c answer h')
    (hc : c.isWrite = false) : h' = h :=
  hs.eq fun seen changes hwrite => by simp [hwrite, ClusterCall.isWrite] at hc

theorem calm_of_serves {R : History → History → Prop} {idle : ∀ h, R h h}
    {chain : ∀ {h h' h''}, R h h' → R h' h'' → R h h''} {c : ClusterCall} {answer : c.Answer}
    (hc : c.isWrite = false) (hs : (among R idle chain).Serves h c answer h') :
    Calm spec h h' :=
  Serves.eq_of_read hs hc ▸ Calm.refl spec h

theorem Serves.calm_of_unmarks {seen : Node} {changes : LabelChanges} {answer : Except Failure Unit}
    (hs : h.Serves (.patch seen changes) answer h') (hchanges : Sync.Unmarks changes) :
    Calm spec h h' := by
  rcases hs with hw | ⟨rfl, -⟩
  · exact hw.calm hchanges
  · exact Calm.refl spec h'

end History

namespace Sync

open History

variable {σ : Type} {E : Setting Cluster σ} {G : Moment Cluster σ → Prop}

/-- A sync by its calls: it writes to take a marker away, and it pushes for a node under way. -/
theorem assures_run {s : σ} (node : Node) (spec : Spec)
    (hpatch : ∀ {s seen changes answer t}, Unmarks changes →
      E.Serves s (.patch seen changes) answer t → G ⟨s, ⟨.patch seen changes, answer⟩, t⟩)
    (hget : ∀ {s answer t}, E.Serves s (.get node.name) answer t →
      G ⟨s, ⟨.get node.name, answer⟩, t⟩)
    (hpush : node.isUnderWay spec = true → ∀ {t request answer u}, E.Others s t →
      E.Serves t (.push request) answer u → G ⟨t, ⟨.push request, answer⟩, u⟩) :
    Assures E G (run node spec).run (fun _ _ => True) s := by
  have hupdate : ∀ plan : LabelPlan, (∀ seen, (plan seen).isEmpty = false → Unmarks (plan seen)) →
      Assures E G (LabelUpdate.run node plan).run (fun _ _ => True) s := fun plan hplan =>
    LabelUpdate.assures_run (fun hne hserves => hpatch (hplan _ hne) hserves) hget
  unfold run
  split
  · exact Assures.done fun _ _ => trivial
  · split
    · refine Assures.attempt ((hupdate _ fun _ => unmarks_releasePlan).mono fun t r _ => ?_)
      cases r with
      | ok released => exact Assures.done fun _ _ => trivial
      | error failure => exact fun _ _ => trivial
    · split
      next hneeds =>
        split
        · exact Assures.done fun _ _ => trivial
        next hselected =>
          have hway : node.isUnderWay spec = true := by
            simpa [Node.isUnderWay, hneeds] using hselected
          refine Assures.attempt (Assures.ask fun t ht answer u hu => ?_)
          refine ⟨hpush hway ht hu, Assures.done fun v hv => ?_⟩
          cases answer with
          | ok => exact Assures.done fun _ _ => trivial
          | error failure => exact fun _ _ => trivial
      · refine Assures.attempt ((hupdate _ fun _ => unmarks_clearPlan).mono fun t r _ => ?_)
        cases r with
        | ok cleared => exact Assures.done fun _ _ => trivial
        | error failure => exact fun _ _ => trivial

/-- For a node under way a sync is one push. -/
theorem run_underWay {node : Node} {spec : Spec} (hnoop : spec.isNoop = false)
    (hway : node.isUnderWay spec = true) :
    (run node spec).run = .ask (.push (.ofSpec spec node.isControlPlane)) fun
      | .ok () => .done (.ok .pushed)
      | .error failure => .done (.error failure) := by
  obtain ⟨hselected, hneeds⟩ := Bool.and_eq_true_iff.mp hway
  have hstale : node.hasStaleSelection spec = false := by simp [Node.hasStaleSelection, hselected]
  simp only [run, hnoop, hstale, hneeds, hselected]
  refine congrArg (Program.ask (I := Cluster) (.push (.ofSpec spec node.isControlPlane))) ?_
  funext answer
  cases answer <;> rfl

/-- A sync, for whatever spec and on whatever record, keeps calm about every target. -/
theorem assures_calm (target spec : Spec) (node : Node) (h : History) :
    Assures freely (across (Calm target)) (run node spec).run (fun _ _ => True) h :=
  assures_run node spec (fun hchanges hserves => hserves.calm_of_unmarks hchanges)
    (fun hserves => calm_of_serves rfl hserves)
    (fun _ => fun _ hserves => calm_of_serves rfl hserves)

end Sync

end NodeRollout
