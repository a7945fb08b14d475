import Mathlib.Data.List.Nodup
import NodeRollout.Proofs.Transcript
import NodeRollout.Reconcile

/-! Which upgrade drives the rollout. It is the named one with the least name, in whatever order the
upgrades are listed. The operator knows them from a cache, and each proxy asks for the list, so the
two see them in different orders, and still they agree. -/
namespace NodeRollout

namespace Upgrade

variable {upgrades order : List Upgrade} {u v : Upgrade}

/-- The upgrade has a name, and none of these has a lesser one. -/
structure Leads (upgrades : List Upgrade) (u : Upgrade) : Prop where
  mem : u ∈ upgrades
  named : u.name.isSome
  least : ∀ v ∈ upgrades, ∀ name other, u.name = some name → v.name = some other → name ≤ other

theorem Leads.cons_unnamed (h : Leads upgrades u) (hv : v.name = none) : Leads (v :: upgrades) u where
  mem := List.mem_cons_of_mem v h.mem
  named := h.named
  least := by
    refine List.forall_mem_cons.mpr ⟨?_, h.least⟩
    intro name other _ hother
    rw [hv] at hother
    cases hother

theorem Leads.of_alone (hnone : ∀ w ∈ upgrades, w.name = none) (hu : u.name.isSome) :
    Leads (u :: upgrades) u where
  mem := List.mem_cons_self
  named := hu
  least := by
    refine List.forall_mem_cons.mpr ⟨?_, ?_⟩
    · intro name other hname hother
      obtain rfl := Option.some.inj (hname.symm.trans hother)
      exact String.le_refl name
    · intro w hw name other _ hother
      rw [hnone w hw] at hother
      cases hother

theorem Leads.cons_le (h : Leads upgrades v) {a b : String} (hu : u.name = some a)
    (hv : v.name = some b) (hle : a ≤ b) : Leads (u :: upgrades) u where
  mem := List.mem_cons_self
  named := by rw [hu]; rfl
  least := by
    refine List.forall_mem_cons.mpr ⟨?_, ?_⟩
    · intro name other hname hother
      obtain rfl := Option.some.inj (hname.symm.trans hother)
      exact String.le_refl name
    · intro w hw name other hname hother
      obtain rfl := Option.some.inj (hname.symm.trans hu)
      exact String.le_trans hle (h.least w hw b other hv hother)

theorem Leads.cons_lt (h : Leads upgrades v) {a b : String} (hu : u.name = some a)
    (hv : v.name = some b) (hlt : b < a) : Leads (u :: upgrades) v where
  mem := List.mem_cons_of_mem u h.mem
  named := h.named
  least := by
    refine List.forall_mem_cons.mpr ⟨?_, h.least⟩
    intro name other hname hother
    obtain rfl := Option.some.inj (hname.symm.trans hv)
    obtain rfl := Option.some.inj (hother.symm.trans hu)
    exact Std.le_of_lt hlt

/-- The upgrade that is found leads, and none is found only where none has a name. -/
theorem active?_spec (upgrades : List Upgrade) :
    match active? upgrades with
    | some u => Leads upgrades u
    | none => ∀ u ∈ upgrades, u.name = none := by
  -- the one in front has to do with nobody but the one that leads the rest
  induction upgrades with
  | nil => exact List.forall_mem_nil _
  | cons u rest ih =>
    rw [active?]
    cases hu : u.name with
    | none =>
      rw [if_pos Option.isNone_none]
      cases hrest : active? rest with
      | none =>
        rw [hrest] at ih
        exact List.forall_mem_cons.mpr ⟨hu, ih⟩
      | some v =>
        rw [hrest] at ih
        exact ih.cons_unnamed hu
    | some a =>
      have hnamed : ¬ (some a).isNone = true := by simp
      rw [if_neg hnamed]
      cases hrest : active? rest with
      | none =>
        rw [hrest] at ih
        exact .of_alone ih (by rw [hu]; rfl)
      | some v =>
        rw [hrest] at ih
        obtain ⟨b, hv⟩ := Option.isSome_iff_exists.mp ih.named
        have hbefore : u.before v = decide (a ≤ b) := by rw [before, hu, hv]
        by_cases hle : a ≤ b
        · simp only [hbefore, hle, decide_true, if_true]
          exact ih.cons_le hu hv hle
        · simp only [hbefore, hle, decide_false, Bool.false_eq_true, if_false]
          exact ih.cons_lt hu hv (String.not_le.mp hle)

theorem leads_of_active? (h : active? upgrades = some u) : Leads upgrades u := by
  have hspec := active?_spec upgrades
  rwa [h] at hspec

theorem active?_eq_none_iff : active? upgrades = none ↔ ∀ u ∈ upgrades, u.name = none := by
  have hspec := active?_spec upgrades
  constructor
  · intro hnone
    rwa [hnone] at hspec
  · intro hunnamed
    cases hactive : active? upgrades with
    | none => rfl
    | some u =>
      have hleads := leads_of_active? hactive
      have hnamed := hleads.named
      rw [hunnamed u hleads.mem] at hnamed
      cases hnamed

theorem eq_of_name {name : String} (hnames : (upgrades.filterMap Upgrade.name).Nodup)
    (hu : u ∈ upgrades) (hv : v ∈ upgrades) (hname : u.name = some name)
    (hname' : v.name = some name) : u = v := by
  -- the names that are there are pairwise different, so each belongs to one upgrade
  induction upgrades with
  | nil => cases hu
  | cons w rest ih =>
    have hother : ∀ x ∈ rest, x.name = some name → w.name ≠ some name := by
      intro x hx hx' hw
      rw [List.filterMap_cons_some hw, List.nodup_cons] at hnames
      exact hnames.1 (List.mem_filterMap.mpr ⟨x, hx, hx'⟩)
    have hrest : (rest.filterMap Upgrade.name).Nodup :=
      hnames.sublist ((List.sublist_cons_self w rest).filterMap Upgrade.name)
    rcases List.mem_cons.mp hu with rfl | hurest
    · rcases List.mem_cons.mp hv with rfl | hvrest
      · rfl
      · exact absurd hname (hother v hvrest hname')
    · rcases List.mem_cons.mp hv with rfl | hvrest
      · exact absurd hname' (hother u hurest hname)
      · exact ih hrest hurest hvrest

theorem Leads.unique (hnames : (upgrades.filterMap Upgrade.name).Nodup) (hu : Leads upgrades u)
    (hv : Leads upgrades v) : u = v := by
  obtain ⟨a, ha⟩ := Option.isSome_iff_exists.mp hu.named
  obtain ⟨b, hb⟩ := Option.isSome_iff_exists.mp hv.named
  have hab : a ≤ b := hu.least v hv.mem a b ha hb
  have hba : b ≤ a := hv.least u hu.mem b a hb ha
  obtain rfl := String.le_antisymm hab hba
  exact eq_of_name hnames hu.mem hv.mem ha hb

theorem Leads.perm (h : Leads upgrades u) (horder : order.Perm upgrades) : Leads order u where
  mem := horder.mem_iff.mpr h.mem
  named := h.named
  least v hv := h.least v (horder.mem_iff.mp hv)

theorem active?_eq_some_iff (hnames : (upgrades.filterMap Upgrade.name).Nodup)
    (horder : order.Perm upgrades) : active? order = some u ↔ Leads upgrades u := by
  constructor
  · intro hactive
    exact (leads_of_active? hactive).perm horder.symm
  · intro hleads
    cases hactive : active? order with
    | none =>
      have hnone := active?_eq_none_iff.mp hactive u (horder.mem_iff.mpr hleads.mem)
      have hnamed := hleads.named
      rw [hnone] at hnamed
      cases hnamed
    | some v => rw [((leads_of_active? hactive).perm horder.symm).unique hnames hleads]

end Upgrade

open Program

namespace Operator

variable {settings : Settings} {known : List Upgrade} {active upgrade : Upgrade}
  {events : List (Event Cluster)} {result : Except Failure Requeue}

/-- The count that follows a pass; a pass that fails is not counted here. -/
def counted : Except Failure PassOutcome → List (Event Cluster)
  | .ok outcome => [⟨.count (.reconciled outcome.label), ()⟩]
  | .error _ => []

/-- The calls of a step that runs a pass for the spec. -/
def RunsPass (settings : Settings) (spec : Spec) (events : List (Event Cluster))
    (result : Except Failure Requeue) : Prop :=
  ∃ passing outcome, Runs (Pass.run settings spec).run passing outcome ∧
    events = passing ++ counted outcome ∧ result = outcome.map Requeue.ofPass

/-- The only call of a step for an upgrade that another one goes before. -/
def ignoring : List (Event Cluster) := [⟨.count (.reconciled "ignored"), ()⟩]

theorem runs_reconcile_ignored (hactive : Upgrade.active? known = some active)
    (hname : active.nameText ≠ upgrade.nameText) :
    Runs (reconcile settings known upgrade).run events result ↔
      events = ignoring ∧ result = .ok .awaitChange := by
  have hprogram : (reconcile settings known upgrade).run =
      .ask (.count (.reconciled "ignored")) fun _ => .done (.ok .awaitChange) := by
    have hother : (active.nameText != upgrade.nameText) = true := bne_iff_ne.mpr hname
    simp only [reconcile, hactive, hother, if_true]
    rfl
  rw [hprogram]
  constructor
  · intro hrun
    cases hrun with
    | ask answer hrest =>
      cases hrest
      exact ⟨rfl, rfl⟩
  · rintro ⟨rfl, rfl⟩
    exact .ask _ (.done _)

/-- A pass is run unless another upgrade goes before this one. -/
theorem runs_reconcile_of_first
    (hfirst : ∀ active, Upgrade.active? known = some active → active.nameText = upgrade.nameText) :
    Runs (reconcile settings known upgrade).run events result ↔
      RunsPass settings upgrade.spec events result := by
  have hprogram : (reconcile settings known upgrade).run =
      (Pass.run settings upgrade.spec).run >>= fun
        | .ok outcome => .ask (.count (.reconciled outcome.label)) fun _ =>
          .done (.ok (.ofPass outcome))
        | .error failure => .done (.error failure) := by
    have hrun : reconcile settings known upgrade = (do
        let outcome ← Pass.run settings upgrade.spec
        ExceptT.lift (Cluster.count (.reconciled outcome.label))
        return .ofPass outcome) := by
      unfold reconcile
      cases hactive : Upgrade.active? known with
      | none => rfl
      | some active =>
        have hsame : (active.nameText != upgrade.nameText) = false := by
          rw [hfirst active hactive]
          exact bne_self_eq_false' ..
        simp only [hsame, Bool.false_eq_true, if_false]
    rw [hrun]
    refine congrArg ((Pass.run settings upgrade.spec).run >>= ·) ?_
    funext outcome
    cases outcome <;> rfl
  rw [hprogram, runs_bind_iff]
  constructor
  · rintro ⟨passing, outcome, after, hpass, hafter, rfl⟩
    refine ⟨passing, outcome, hpass, ?_⟩
    cases outcome with
    | error failure =>
      cases hafter
      exact ⟨rfl, rfl⟩
    | ok outcome =>
      cases hafter with
      | ask answer hrest =>
        cases hrest
        exact ⟨rfl, rfl⟩
  · rintro ⟨passing, outcome, hpass, rfl, rfl⟩
    refine ⟨passing, outcome, counted outcome, hpass, ?_, rfl⟩
    cases outcome with
    | error failure => exact .done _
    | ok outcome =>
      exact .ask _ (.done _)

theorem runs_reconcile_pass (hactive : Upgrade.active? known = some upgrade) :
    Runs (reconcile settings known upgrade).run events result ↔
      RunsPass settings upgrade.spec events result :=
  runs_reconcile_of_first fun active hfound => by
    rw [Option.some.inj (hfound.symm.trans hactive)]

/-- A step is one that ignores its upgrade, or one that runs a pass for it. -/
theorem ignoring_or_runsPass (h : Runs (reconcile settings known upgrade).run events result) :
    events = ignoring ∧ result = .ok .awaitChange ∨
      RunsPass settings upgrade.spec events result := by
  by_cases hfirst : ∀ active, Upgrade.active? known = some active →
      active.nameText = upgrade.nameText
  · exact .inr ((runs_reconcile_of_first hfirst).mp h)
  · push Not at hfirst
    obtain ⟨active, hactive, hname⟩ := hfirst
    exact .inl ((runs_reconcile_ignored hactive hname).mp h)

end Operator

namespace Proxy

/-- The calls of a step after the upgrades were listed: those of a sync with this spec. -/
def Syncs (node : Node) (spec : Spec) (events : List (Event Cluster))
    (result : Except Failure Requeue) : Prop :=
  ∃ outcome, Runs (Sync.run node spec).run events outcome ∧ result = outcome.map Requeue.ofSync

/-- The rest of a step of the own node, once the upgrades are listed. -/
def proceed (node : Node) : Except Failure (List Upgrade) → Program Cluster (Except Failure Requeue)
  | .ok upgrades => (match Upgrade.active? upgrades with
    | none => return .awaitChange
    | some active => return .ofSync (← Sync.run node active.spec) : Procedure Requeue).run
  | .error failure => .done (.error failure)

theorem run_reconcile_own (node : Node) :
    (reconcile node.name node).run = .ask .upgrades (proceed node) := by
  have hown : (node.name != node.name) = false := bne_self_eq_false' ..
  simp only [reconcile, hown, Bool.false_eq_true, if_false]
  refine congrArg (Program.ask (I := Cluster) .upgrades) ?_
  funext answer
  cases answer <;> rfl

theorem runs_reconcile_own {node : Node} {listed : List Upgrade} {active : Upgrade}
    {events : List (Event Cluster)} {result : Except Failure Requeue}
    (hactive : Upgrade.active? listed = some active) :
    Runs (reconcile node.name node).run (⟨.upgrades, .ok listed⟩ :: events) result ↔
      Syncs node active.spec events result := by
  have hsync : (do return .ofSync (← Sync.run node active.spec) : Procedure Requeue).run =
      (Sync.run node active.spec).run >>= fun outcome => .done (outcome.map .ofSync) := by
    refine congrArg ((Sync.run node active.spec).run >>= ·) ?_
    funext outcome
    cases outcome <;> rfl
  rw [run_reconcile_own]
  constructor
  · intro hrun
    cases hrun with
    | ask _ hrest =>
      simp only [proceed, hactive] at hrest
      rw [hsync, runs_bind_iff] at hrest
      obtain ⟨syncing, outcome, after, hsyncing, hafter, rfl⟩ := hrest
      cases hafter
      rw [List.append_nil]
      exact ⟨outcome, hsyncing, rfl⟩
  · rintro ⟨outcome, hsyncing, rfl⟩
    refine .ask _ ?_
    simp only [proceed, hactive]
    rw [hsync, runs_bind_iff]
    exact ⟨events, outcome, [], hsyncing, .done _, (List.append_nil events).symm⟩

end Proxy

namespace Upgrade

variable {upgrades : List Upgrade}

/-- This upgrade leads, and each step of the loops knows it. The operator runs a pass for it and
ignores every other one, and each proxy syncs its node with it, whatever the order in which they see
the upgrades. -/
structure Drives (upgrades : List Upgrade) (driving : Upgrade) : Prop where
  leads : Leads upgrades driving
  passes : ∀ {known}, known.Perm upgrades → ∀ settings events result,
    Runs (Operator.reconcile settings known driving).run events result ↔
      Operator.RunsPass settings driving.spec events result
  ignores : ∀ {known}, known.Perm upgrades → ∀ other ∈ upgrades, other ≠ driving →
    ∀ settings events result,
      Runs (Operator.reconcile settings known other).run events result ↔
        events = Operator.ignoring ∧ result = .ok .awaitChange
  syncs : ∀ {listed}, listed.Perm upgrades → ∀ node events result,
    Runs (Proxy.reconcile node.name node).run (⟨.upgrades, .ok listed⟩ :: events) result ↔
      Proxy.Syncs node driving.spec events result

theorem nameText_ne {u v : Upgrade} (hnames : (upgrades.filterMap Upgrade.name).Nodup)
    (hu : u ∈ upgrades) (hv : v ∈ upgrades) (hu' : u.name.isSome) (hv' : v.name.isSome)
    (hne : u ≠ v) : u.nameText ≠ v.nameText := by
  obtain ⟨a, ha⟩ := Option.isSome_iff_exists.mp hu'
  obtain ⟨b, hb⟩ := Option.isSome_iff_exists.mp hv'
  intro hsame
  rw [nameText, nameText, ha, hb, Option.getD_some, Option.getD_some] at hsame
  exact hne (eq_of_name hnames hu hv ha (hsame ▸ hb))

theorem Leads.drives {u : Upgrade} (h : Leads upgrades u)
    (hnames : (upgrades.filterMap Upgrade.name).Nodup)
    (hnamed : ∀ v ∈ upgrades, v.name.isSome) : Drives upgrades u where
  leads := h
  passes hknown settings events result :=
    Operator.runs_reconcile_pass ((active?_eq_some_iff hnames hknown).mpr h)
  ignores hknown other hother hne settings events result := by
    refine Operator.runs_reconcile_ignored ((active?_eq_some_iff hnames hknown).mpr h) ?_
    exact nameText_ne hnames h.mem hother h.named (hnamed other hother) hne.symm
  syncs hlisted node events result :=
    Proxy.runs_reconcile_own ((active?_eq_some_iff hnames hlisted).mpr h)

/-- Of upgrades with different names the one of the least name is found, in whatever order they
stand, and none is only where none has a name. When all are named, it alone drives the rollout. -/
theorem active?_drives (hnames : (upgrades.filterMap Upgrade.name).Nodup) :
    (∀ order : List Upgrade, order.Perm upgrades →
      active? order = active? upgrades ∧ ∀ u, active? order = some u ↔ Leads upgrades u) ∧
    (active? upgrades = none ↔ ∀ u ∈ upgrades, u.name = none) ∧
    (upgrades ≠ [] → (∀ u ∈ upgrades, u.name.isSome) →
      ∃ driving, active? upgrades = some driving ∧ Drives upgrades driving) := by
  have hleads : ∀ order : List Upgrade, order.Perm upgrades →
      ∀ u, active? order = some u ↔ Leads upgrades u :=
    fun order horder u => active?_eq_some_iff hnames horder
  refine ⟨?_, active?_eq_none_iff, ?_⟩
  · intro order horder
    refine ⟨Option.ext fun u => ?_, hleads order horder⟩
    rw [hleads order horder u, hleads upgrades (.refl upgrades) u]
  · intro hsome hnamed
    cases hactive : active? upgrades with
    | none =>
      obtain ⟨u, hu⟩ := List.exists_mem_of_ne_nil upgrades hsome
      have hu' := hnamed u hu
      rw [active?_eq_none_iff.mp hactive u hu] at hu'
      cases hu'
    | some driving => exact ⟨driving, rfl, (leads_of_active? hactive).drives hnames hnamed⟩

def firstUpgrade : Upgrade := ⟨some "a", { kubeVersion := "v1.29.1" }⟩

def secondUpgrade : Upgrade := ⟨some "b", { kubeVersion := "v1.30.0" }⟩

/-- The operator knows the two in one order, and a proxy lists them in the other. -/
theorem active?_drives_two : active? [secondUpgrade, firstUpgrade] = some firstUpgrade ∧
    Drives [secondUpgrade, firstUpgrade] firstUpgrade := by
  have hnames : ([secondUpgrade, firstUpgrade].filterMap Upgrade.name).Nodup := by decide
  obtain ⟨driving, hactive, hdrives⟩ :=
    (active?_drives hnames).2.2 (by decide) (by decide)
  have hfirst : active? [secondUpgrade, firstUpgrade] = some firstUpgrade := by decide
  obtain rfl := Option.some.inj (hactive.symm.trans hfirst)
  exact ⟨hactive, hdrives⟩

end Upgrade

end NodeRollout
