import NodeRollout.Proofs.Interleaving

/-! The desired state may be replaced between two operations. A marker names its target, so one
that is left from another target is never acted on. A target that returns finds its own markers
again, though, and a worker that still carries one is acted on at once, before the control plane
is back at the target. So whether the order of the rollout outlasts a change of the target is
decided at that moment. -/
namespace NodeRollout

namespace History

variable {spec : Spec} {h h' : History}

/-- No worker is under way while a control-plane node is behind. -/
def WorkersInTurn (spec : Spec) (h : History) : Prop :=
  ∀ name node, h.find? name = some node → node.isControlPlane = false →
    node.isUnderWay spec = true → h.ControlPlaneDone spec

/-- Every marker has one of these values. -/
def MarkedWithin (values : List String) (h : History) : Prop :=
  ∀ name node value, h.find? name = some node → node.marker? = some value → value ∈ values

/-- A node reports a version of the spec where it reported another one. -/
def Reports (spec : Spec) (h h' : History) : Prop :=
  ∃ old new, h.find? new.name = some old ∧ h.Adds (.stored new) h' ∧
    new.isControlPlane = old.isControlPlane ∧ new.marker? = old.marker? ∧
    (new.osImage = old.osImage ∨ new.osImage = spec.osVersion) ∧
    (new.kubelet = old.kubelet ∨ new.kubelet = spec.kubeVersion) ∧
    (new.kubeProxy = old.kubeProxy ∨ new.kubeProxy = spec.kubeVersion)

abbrev reporting (spec : Spec) : Setting Cluster History :=
  among (Relation.ReflTransGen (Reports spec)) (fun _ => .refl) .trans

theorem Reports.outside (hreports : Reports spec h h') : Outside spec h h' := by
  obtain ⟨old, new, hold, hadds, hrole, hmarker, hos, hkubelet, hproxy⟩ := hreports
  refine ⟨old, new, hold, hadds, hrole, hmarker, ?_⟩
  intro hat
  by_cases hkube : spec.kubeVersion.isEmpty = true
  · have hold' : spec.osVersion = old.osImage := by simpa [Node.needsUpgrade, hkube] using hat
    have hnew : spec.osVersion = new.osImage := by
      rcases hos with hos | hos
      · exact hold'.trans hos.symm
      · exact hos.symm
    simp [Node.needsUpgrade, hkube, hnew]
  · have hold' : spec.kubeVersion = old.kubeProxy ∧ spec.kubeVersion = old.kubelet := by
      simpa [Node.needsUpgrade, hkube] using hat
    have hnewProxy : new.kubeProxy = spec.kubeVersion := by
      rcases hproxy with hproxy | hproxy
      · exact hproxy.trans hold'.1.symm
      · exact hproxy
    have hnewKubelet : new.kubelet = spec.kubeVersion := by
      rcases hkubelet with hkubelet | hkubelet
      · exact hkubelet.trans hold'.2.symm
      · exact hkubelet
    simp [Node.needsUpgrade, hkube, hnewProxy, hnewKubelet]

theorem calm_of_reporting (hothers : (reporting spec).Others h h') : Calm spec h h' := by
  induction hothers with
  | refl => exact Calm.refl spec h
  | tail _ hreports ih => exact ih.trans hreports.outside.calm

theorem Calm.workersInTurn (hcalm : Calm spec h h') (hturn : h.WorkersInTurn spec) :
    h'.WorkersInTurn spec := by
  intro name new hnew hrole hway
  obtain ⟨old, hold, hsame, hway'⟩ := hcalm.underWay hnew hway
  have hdone := hturn name old hold (hsame.symm.trans hrole) hway'
  exact (hcalm.marks name).controlPlaneDone hdone

theorem Proceeds.workersInTurn (hp : Proceeds spec h h') (hturn : h.WorkersInTurn spec) :
    h'.WorkersInTurn spec := by
  rcases hp with hcalm | ⟨name, hmay, hm⟩
  · exact hcalm.workersInTurn hturn
  intro other new hnew hrole hway
  rcases hm.underWay hnew hway with rfl | ⟨old, hold, hsame, hway'⟩
  · obtain ⟨old, hold, hsame, -, -⟩ := hm other new hnew
    exact hm.controlPlaneDone (hmay.2 old hold (hsame.symm.trans hrole)).1
  · exact hm.controlPlaneDone (hturn other old hold (hsame.trans hrole) hway')

theorem Proceeds.markedWithin {values : List String} (hp : Proceeds spec h h')
    (hspec : spec.selectionValue ∈ values) (hmarked : h.MarkedWithin values) :
    h'.MarkedWithin values := by
  have hm : ∃ name, Marks spec name h h' := by
    rcases hp with hcalm | ⟨name, -, hm⟩
    · exact ⟨"", hcalm.marks ""⟩
    · exact ⟨name, hm⟩
  obtain ⟨name, hm⟩ := hm
  intro other new value hnew hvalue
  obtain ⟨old, hold, -, hmarker, -⟩ := hm other new hnew
  rcases hmarker value hvalue with hold' | ⟨-, rfl⟩
  · exact hmarked other old value hold hold'
  · exact hspec

theorem MarkedWithin.mono {values values' : List String} (hmarked : h.MarkedWithin values)
    (hsub : values ⊆ values') : h.MarkedWithin values' :=
  fun name node value hnode hvalue => hsub (hmarked name node value hnode hvalue)

theorem MarkedWithin.workersInTurn {values : List String} (hmarked : h.MarkedWithin values)
    (hspec : spec.selectionValue ∉ values) : h.WorkersInTurn spec := by
  intro name node hnode _ hway
  have hselected : node.isSelectedFor spec = true := (Bool.and_eq_true_iff.mp hway).1
  exact absurd (hmarked name node _ hnode (Node.isSelectedFor_iff.mp hselected)) hspec

end History

namespace History

variable {spec : Spec} {h h' : History}

/-- A sync of a worker that begins on these nodes pushes only while the control plane is done. -/
def SyncsInTurn (spec : Spec) (h : History) : Prop :=
  ∀ name node ms t p, h.find? name = some node → node.isControlPlane = false →
    Course (reporting spec) h (Sync.run node spec).run ms t p →
    ∀ m ∈ ms, m.event.isPush = true → m.before.ControlPlaneDone spec

theorem WorkersInTurn.syncsInTurn (hturn : h.WorkersInTurn spec) : h.SyncsInTurn spec := by
  intro name node ms t p hnode hrole hcourse
  have hsync : Assures (reporting spec)
      (fun m => m.event.isPush = true → m.before.ControlPlaneDone spec)
      (Sync.run node spec).run (fun _ _ => True) h := by
    refine Sync.assures_run node spec ?_ ?_ ?_
    · intro s seen changes answer u _ _ hpush
      cases hpush
    · intro s answer u _ hpush
      cases hpush
    · intro hway u request answer v hothers _ _
      have hdone := hturn name node hnode hrole hway
      exact ((calm_of_reporting hothers).marks name).controlPlaneDone hdone
  exact (hsync.course hcourse).2

/-- A node under way is pushed to at once, without another look at the cluster. -/
theorem SyncsInTurn.workersInTurn (hnoop : spec.isNoop = false) (hsyncs : h.SyncsInTurn spec) :
    h.WorkersInTurn spec := by
  intro name node hnode hrole hway
  let request := PushRequest.ofSpec spec node.isControlPlane
  have hpush : (reporting spec).Serves h (.push request) (.ok ()) h := rfl
  have hcourse : ∃ p, Course (reporting spec) h (Sync.run node spec).run
      [⟨h, ⟨.push request, .ok ()⟩, h⟩] h p := by
    rw [Sync.run_underWay hnoop hway]
    exact ⟨_, .call hpush (.stay _ _)⟩
  obtain ⟨p, hcourse⟩ := hcourse
  exact hsyncs name node _ h p hnode hrole hcourse _ List.mem_cons_self rfl

end History

structure Rollout where
  nodes : History
  spec : Spec

namespace Rollout

open History

/-- One whole pass, one whole sync on a fresh read, or a node that reports a version of the spec. -/
inductive Step : Rollout → Rollout → Prop where
  | reports {s : Rollout} {nodes : History} (change : Reports s.spec s.nodes nodes) :
      Step s { s with nodes }
  | pass {s : Rollout} {nodes : History} {settings : Settings} {ms : List (Moment Cluster History)}
      {result : Except Failure PassOutcome}
      (course : Course (reporting s.spec) s.nodes (Pass.run settings s.spec).run ms nodes
        (.done result)) : Step s { s with nodes }
  | sync {s : Rollout} {nodes : History} {name : String} {node : Node}
      {ms : List (Moment Cluster History)} {result : Except Failure SyncOutcome}
      (stored : s.nodes.find? name = some node)
      (course : Course (reporting s.spec) s.nodes (Sync.run node s.spec).run ms nodes
        (.done result)) : Step s { s with nodes }

/-- A run from the first state to the last, with the states between its operations, the newest
first. A state is paired with whether its spec came into force there. -/
inductive Trail (s : Rollout) : List (Bool × Rollout) → Rollout → Prop where
  | start (target : s.spec.isNoop = false) : Trail s [(true, s)] s
  | step {visited : List (Bool × Rollout)} {t u : Rollout} (trail : Trail s visited t)
      (step : Step t u) : Trail s ((false, u) :: visited) u
  | retarget {visited : List (Bool × Rollout)} {t : Rollout} {spec : Spec}
      (trail : Trail s visited t) (target : spec.isNoop = false) :
      Trail s ((true, { t with spec }) :: visited) { t with spec }

theorem Step.proceeds {s t : Rollout} (hstep : Step s t) :
    t.spec = s.spec ∧ Relation.ReflTransGen (Proceeds s.spec) s.nodes t.nodes := by
  cases hstep with
  | reports change => exact ⟨rfl, .single (.inl change.outside.calm)⟩
  | @pass nodes settings ms result course =>
    have hcourse : Course (calmly s.spec) s.nodes _ ms nodes _ :=
      course.weaken id calm_of_reporting
    have hcalls := ((Pass.assures_run settings s.spec s.nodes).course hcourse).2
    exact ⟨rfl, hcourse.chain .inl hcalls⟩
  | @sync nodes name node ms result stored course =>
    have hcourse : Course freely s.nodes _ ms nodes _ := course.weaken id fun _ => trivial
    have hcalls := ((Sync.assures_calm s.spec s.spec node s.nodes).course hcourse).2
    refine ⟨rfl, course.chain (fun hothers => .inl (calm_of_reporting hothers)) ?_⟩
    intro m hm
    exact .inl (hcalls m hm)

theorem Step.workersInTurn {s t : Rollout} (hstep : Step s t)
    (hturn : s.nodes.WorkersInTurn s.spec) : t.nodes.WorkersInTurn t.spec := by
  obtain ⟨hspec, hchain⟩ := hstep.proceeds
  rw [hspec]
  generalize t.nodes = nodes at hchain ⊢
  induction hchain with
  | refl => exact hturn
  | tail _ hp ih => exact hp.workersInTurn ih

theorem Step.markedWithin {values : List String} {s t : Rollout} (hstep : Step s t)
    (hspec : s.spec.selectionValue ∈ values) (hmarked : s.nodes.MarkedWithin values) :
    t.nodes.MarkedWithin values := by
  obtain ⟨-, hchain⟩ := hstep.proceeds
  generalize t.nodes = nodes at hchain ⊢
  induction hchain with
  | refl => exact hmarked
  | tail _ hp ih => exact hp.markedWithin hspec ih

theorem Trail.current {s t : Rollout} {visited : List (Bool × Rollout)}
    (htrail : Trail s visited t) : ∃ first, (first, t) ∈ visited := by
  cases htrail <;> exact ⟨_, List.mem_cons_self⟩

theorem Trail.target {s t : Rollout} {visited : List (Bool × Rollout)}
    (htrail : Trail s visited t) : ∀ v ∈ visited, v.2.spec.isNoop = false := by
  induction htrail with
  | start target => simpa using target
  | @step visited t u trail hstep ih =>
    obtain ⟨first, hcurrent⟩ := trail.current
    have hu : u.spec.isNoop = false := hstep.proceeds.1 ▸ ih _ hcurrent
    exact List.forall_mem_cons.mpr ⟨hu, ih⟩
  | retarget _ target ih => exact List.forall_mem_cons.mpr ⟨target, ih⟩

/-- The order is lost, if at all, where a spec comes into force. -/
theorem Trail.workersInTurn {s t : Rollout} {visited : List (Bool × Rollout)}
    (htrail : Trail s visited t)
    (hfirst : ∀ v ∈ visited, v.1 = true → v.2.nodes.WorkersInTurn v.2.spec) :
    ∀ v ∈ visited, v.2.nodes.WorkersInTurn v.2.spec := by
  induction htrail with
  | start target => simpa using hfirst
  | @step visited t u trail hstep ih =>
    have hvisited := ih (List.forall_mem_cons.mp hfirst).2
    obtain ⟨first, hcurrent⟩ := trail.current
    exact List.forall_mem_cons.mpr ⟨hstep.workersInTurn (hvisited _ hcurrent), hvisited⟩
  | retarget _ target ih =>
    obtain ⟨hnow, hrest⟩ := List.forall_mem_cons.mp hfirst
    exact List.forall_mem_cons.mpr ⟨hnow rfl, ih hrest⟩

/-- Markers are those of specs that were in force. -/
theorem Trail.markedWithin {s t : Rollout} {visited : List (Bool × Rollout)}
    (htrail : Trail s visited t) (hstart : s.nodes.MarkedWithin []) :
    t.nodes.MarkedWithin (visited.map (·.2.spec.selectionValue)) := by
  induction htrail with
  | start target => exact hstart.mono (List.nil_subset _)
  | @step visited t u trail hstep ih =>
    obtain ⟨first, hcurrent⟩ := trail.current
    have hspec : t.spec.selectionValue ∈ visited.map (·.2.spec.selectionValue) :=
      List.mem_map.mpr ⟨(first, t), hcurrent, rfl⟩
    rw [List.map_cons]
    exact (hstep.markedWithin hspec ih).mono (List.subset_cons_self _ _)
  | retarget _ target ih =>
    rw [List.map_cons]
    exact ih.mono (List.subset_cons_self _ _)

/-- While no target returns, every change of the target finds the order kept. -/
theorem Trail.workersInTurn_of_new {s t : Rollout} {visited : List (Bool × Rollout)}
    (htrail : Trail s visited t) (hstart : s.nodes.MarkedWithin [])
    (hnew : visited.Pairwise fun later earlier => later.1 = true →
      later.2.spec.selectionValue ≠ earlier.2.spec.selectionValue) :
    ∀ v ∈ visited, v.2.nodes.WorkersInTurn v.2.spec := by
  refine htrail.workersInTurn ?_
  induction htrail with
  | start target => simpa using hstart.workersInTurn List.not_mem_nil
  | step _ _ ih => exact List.forall_mem_cons.mpr ⟨nofun, ih (List.pairwise_cons.mp hnew).2⟩
  | @retarget visited t spec trail target ih =>
    obtain ⟨hnow, hrest⟩ := List.pairwise_cons.mp hnew
    refine List.forall_mem_cons.mpr ⟨fun _ => ?_, ih hrest⟩
    refine (trail.markedWithin hstart).workersInTurn ?_
    intro hmem
    obtain ⟨v, hv, heq⟩ := List.mem_map.mp hmem
    exact hnow v hv rfl heq.symm

/-- No sync that begins at any point of a run pushes to a worker while a control-plane node is
behind, exactly when no spec comes into force over a worker that is under way for it while a
control-plane node is behind. -/
theorem Trail.syncsInTurn_iff {s t : Rollout} {visited : List (Bool × Rollout)}
    (htrail : Trail s visited t) :
    (∀ v ∈ visited, v.2.nodes.SyncsInTurn v.2.spec) ↔
      ∀ v ∈ visited, v.1 = true → v.2.nodes.WorkersInTurn v.2.spec := by
  constructor
  · -- a sync that begins at once on a worker under way pushes to it
    intro hsyncs v hv _
    exact (hsyncs v hv).workersInTurn (htrail.target v hv)
  · intro hfirst v hv
    exact (htrail.workersInTurn hfirst v hv).syncsInTurn

/-- A wait may run into its timeout, whatever the nodes are. -/
theorem permits_timeout (settings : Settings) (node : Node) (spec : Spec) (h : History) :
    Permits (reporting spec) (Pass.await settings spec node) (fun t r => t = h ∧ r = false) h := by
  have hwait : Permits (reporting spec) (Wait.run settings node.name spec)
      (fun t r => t = h ∧ r = none) h := by
    unfold Wait.run
    split
    · exact .done ⟨rfl, rfl⟩
    · refine .bind (.ask 0 rfl (.done (.bind ?_)))
      unfold Wait.poll
      split
      · exact .ask none ⟨rfl, nofun⟩ (.done (.done ⟨rfl, rfl⟩))
      · exact .bind (.ask () rfl (.done (.done (.done ⟨rfl, rfl⟩))))
  obtain ⟨ms, t, r, hcourse, rfl, rfl⟩ := hwait
  exact .bind ⟨ms, t, none, hcourse, .ask () rfl (.done ⟨rfl, rfl⟩)⟩

def laterSpec : Spec := { kubeVersion := "v1.30.0" }

def readyControlPlane : Node :=
  { Fleet.oldControlPlane with kubelet := "v1.29.1", kubeProxy := "v1.29.1" }

def stuckWorker : Node :=
  Fleet.oldWorker.relabel (Pass.selectPlan Fleet.sampleSpec Fleet.oldWorker) (some "2")

def chosenControlPlane : Node :=
  readyControlPlane.relabel (Pass.selectPlan laterSpec readyControlPlane) (some "2")

def movedControlPlane : Node :=
  { chosenControlPlane with
    resourceVersion := some "3", kubelet := "v1.30.0", kubeProxy := "v1.30.0" }

def readyNodes : History :=
  ⟨[.stored readyControlPlane, .stored Fleet.oldWorker], by decide, by decide⟩

def stuckNodes : History := readyNodes.store stuckWorker (by decide) (by decide)

def chosenNodes : History := stuckNodes.store chosenControlPlane (by decide) (by decide)

def movedNodes : History := chosenNodes.store movedControlPlane (by decide) (by decide)

/-- The worker is marked, and misses its deadline. -/
theorem permits_stuckNodes : Permits (reporting Fleet.sampleSpec) (Pass.run {} Fleet.sampleSpec).run
    (fun t _ => t = stuckNodes) readyNodes := by
  have hlist : (reporting Fleet.sampleSpec).Serves readyNodes .list
      (.ok [readyControlPlane, Fleet.oldWorker]) readyNodes := by
    refine ⟨rfl, ?_⟩
    rintro nodes ⟨⟩
    exact isSnapshot_of_records (by decide) (by decide) (by decide)
  have hget : (reporting Fleet.sampleSpec).Serves readyNodes (.get "w1") (.ok Fleet.oldWorker)
      readyNodes := by
    refine ⟨rfl, ?_⟩
    rintro node ⟨⟩
    decide
  have hpatch : (reporting Fleet.sampleSpec).Serves readyNodes
      (.patch Fleet.oldWorker (Pass.selectPlan Fleet.sampleSpec Fleet.oldWorker)) (.ok ())
      stuckNodes := .inl ⟨Fleet.oldWorker, some "2", by decide, by decide, .inl rfl⟩
  refine .ask _ hlist (.ask _ hget (.ask _ hpatch (.ask () rfl ?_)))
  -- the worker is selected, what is left is the wait and what follows it
  show Permits _ (ExceptT.run
    (((ExceptT.lift (Pass.await {} _ Fleet.oldWorker) : Procedure Bool) >>= _) >>= _)) _ _
  obtain ⟨ms, t, r, hcourse, rfl, rfl⟩ :=
    permits_timeout {} Fleet.oldWorker Fleet.sampleSpec stuckNodes
  exact .attempt (.lift ⟨ms, _, _, hcourse, .done ⟨_, rfl, .done rfl⟩⟩)

/-- The control-plane node is marked for the later target, and misses its deadline. -/
theorem permits_chosenNodes : Permits (reporting laterSpec) (Pass.run {} laterSpec).run
    (fun t _ => t = chosenNodes) stuckNodes := by
  have hlist : (reporting laterSpec).Serves stuckNodes .list
      (.ok [readyControlPlane, stuckWorker]) stuckNodes := by
    refine ⟨rfl, ?_⟩
    rintro nodes ⟨⟩
    exact isSnapshot_of_records (by decide) (by decide) (by decide)
  have hpatch : (reporting laterSpec).Serves stuckNodes
      (.patch readyControlPlane (Pass.selectPlan laterSpec readyControlPlane)) (.ok ())
      chosenNodes := .inl ⟨readyControlPlane, some "2", by decide, by decide, .inl rfl⟩
  have htier : Pass.controlPlaneTier {} laterSpec [readyControlPlane] = do
      Pass.select laterSpec readyControlPlane
      return some (← ExceptT.lift (Pass.awaitLast {} laterSpec readyControlPlane ["cp1"])) := rfl
  have hparts : [readyControlPlane, stuckWorker].partition (·.isControlPlane) =
      ([readyControlPlane], [stuckWorker]) := by decide
  have hbehind : [readyControlPlane, stuckWorker].any (·.needsUpgrade laterSpec) = true := by decide
  have hselect : Permits (reporting laterSpec) (Pass.select laterSpec readyControlPlane).run
      (fun t r => r = .ok () ∧ t = chosenNodes) stuckNodes :=
    .ask _ hpatch (.ask () rfl (.done ⟨rfl, rfl⟩))
  refine .attempt (.ask _ hlist (.done ⟨_, rfl, ?_⟩))
  simp only [hbehind, hparts, htier]
  obtain ⟨selecting, _, _, hselecting, rfl, rfl⟩ := hselect
  obtain ⟨waiting, _, _, hwaiting, rfl, rfl⟩ :=
    permits_timeout {} readyControlPlane laterSpec chosenNodes
  refine .attempt (.attempt ⟨selecting, _, _, hselecting, (), rfl, ?_⟩)
  exact .lift (.bind ⟨waiting, _, _, hwaiting, .done (.done ⟨_, rfl, .done rfl⟩)⟩)

/-- The first target returns to a control plane that is at the later one, and to a worker that still
carries its marker. -/
def returningStates : List (Bool × Rollout) := [
  (true, ⟨movedNodes, Fleet.sampleSpec⟩), (false, ⟨movedNodes, laterSpec⟩),
  (false, ⟨chosenNodes, laterSpec⟩), (true, ⟨stuckNodes, laterSpec⟩),
  (false, ⟨stuckNodes, Fleet.sampleSpec⟩), (true, ⟨readyNodes, Fleet.sampleSpec⟩)]

theorem trail_returningStates :
    Trail ⟨readyNodes, Fleet.sampleSpec⟩ returningStates ⟨movedNodes, Fleet.sampleSpec⟩ := by
  obtain ⟨_, _, _, hfirst, rfl⟩ := permits_stuckNodes
  obtain ⟨_, _, _, hlater, rfl⟩ := permits_chosenNodes
  have hmoved : Reports laterSpec chosenNodes movedNodes :=
    ⟨chosenControlPlane, movedControlPlane, by decide, rfl, rfl, rfl, .inl rfl, .inr rfl, .inr rfl⟩
  have hstart : Trail ⟨readyNodes, Fleet.sampleSpec⟩ _ ⟨readyNodes, Fleet.sampleSpec⟩ :=
    .start (by decide)
  have hforce : Trail ⟨readyNodes, Fleet.sampleSpec⟩ _ ⟨stuckNodes, laterSpec⟩ :=
    (hstart.step (.pass hfirst)).retarget (by decide)
  exact ((hforce.step (.pass hlater)).step (.reports hmoved)).retarget (by decide)

theorem not_workersInTurn_movedNodes : ¬ movedNodes.WorkersInTurn Fleet.sampleSpec := by
  intro hturn
  have hdone := hturn "w1" stuckWorker (by decide) (by decide) (by decide)
  have hat := hdone "cp1" movedControlPlane (by decide) (by decide)
  revert hat
  decide

theorem syncsInTurn_iff_returningStates :
    Trail ⟨readyNodes, Fleet.sampleSpec⟩ returningStates ⟨movedNodes, Fleet.sampleSpec⟩ ∧
      ¬ ∀ v ∈ returningStates, v.2.nodes.SyncsInTurn v.2.spec := by
  refine ⟨trail_returningStates, ?_⟩
  intro hsyncs
  have hfirst := trail_returningStates.syncsInTurn_iff.mp hsyncs
  exact not_workersInTurn_movedNodes (hfirst _ List.mem_cons_self rfl)

/-- The markers' values do not keep the order by themselves. -/
theorem not_syncsInTurn_of_unmarked :
    ¬ ∀ (s t : Rollout) (visited : List (Bool × Rollout)), s.nodes.MarkedWithin [] →
      Trail s visited t →
      (∀ v ∈ visited, ∀ w ∈ visited, v.2.spec.target ≠ w.2.spec.target →
        v.2.spec.selectionValue ≠ w.2.spec.selectionValue) →
      ∀ v ∈ visited, v.2.nodes.SyncsInTurn v.2.spec := by
  intro hclaim
  have hunmarked : readyNodes.MarkedWithin [] := by
    intro name node value hnode hvalue
    have hnone : ∀ old ∈ readyNodes.records, old.marker? = none := by decide
    simp [hnone node (mem_records hnode)] at hvalue
  have hspecs : ∀ v ∈ returningStates, v.2.spec = Fleet.sampleSpec ∨ v.2.spec = laterSpec := by
    simp [returningStates]
  have hvalues : Fleet.sampleSpec.selectionValue ≠ laterSpec.selectionValue := by decide
  have hdistinct : ∀ v ∈ returningStates, ∀ w ∈ returningStates,
      v.2.spec.target ≠ w.2.spec.target → v.2.spec.selectionValue ≠ w.2.spec.selectionValue := by
    intro v hv w hw htargets
    rcases hspecs v hv with hv | hv <;> rcases hspecs w hw with hw | hw <;>
      rw [hv, hw] at htargets ⊢
    · exact absurd rfl htargets
    · exact hvalues
    · exact hvalues.symm
    · exact absurd rfl htargets
  have hsyncs := hclaim _ _ _ hunmarked trail_returningStates hdistinct _ List.mem_cons_self
  exact not_workersInTurn_movedNodes (hsyncs.workersInTurn (by decide))

end Rollout

end NodeRollout
