import NodeRollout.Proofs.Ordering

/-! Passes and syncs for one spec, interleaved call by call with changes from outside. A pass may
stop at any point and be followed by a new one; any number of syncs run beside it, each on a
record that the store once held. The order of the rollout holds in every state that such a run
reaches. -/
namespace NodeRollout

namespace History

variable {spec : Spec} {h h' : History}

/-- At most one node is under way, and a worker carries the marker only after the control plane. -/
structure InOrder (spec : Spec) (h : History) : Prop where
  single : ∀ {x y a b}, h.find? x = some a → a.isUnderWay spec = true →
    h.find? y = some b → b.isUnderWay spec = true → x = y
  workers : ∀ {x a}, h.find? x = some a → a.isSelectedFor spec = true →
    a.isControlPlane = false → h.ControlPlaneDone spec

theorem InOrder.calm (ho : h.InOrder spec) (hcalm : Calm spec h h') : h'.InOrder spec where
  single ha hwaya hb hwayb := by
    obtain ⟨a', ha', -, hwaya'⟩ := hcalm.underWay ha hwaya
    obtain ⟨b', hb', -, hwayb'⟩ := hcalm.underWay hb hwayb
    exact ho.single ha' hwaya' hb' hwayb'
  workers {x} {a} ha hselected hrole := by
    obtain ⟨a', ha', hsame, hselected', -⟩ := hcalm.selected ha hselected
    have hdone := ho.workers ha' hselected' (hsame.symm.trans hrole)
    exact (hcalm.marks x).controlPlaneDone hdone

/-- Another node that is under way when `name` may be marked rules out that `name` is behind. -/
theorem InOrder.eq_of_mayMark {name other : String} {new node : Node} (ho : h.InOrder spec)
    (hmay : h.MayMark spec name) (hm : Marks spec name h h') (hnew : h'.find? name = some new)
    (hneeds : new.needsUpgrade spec = true) (hnode : h.find? other = some node)
    (hway : node.isUnderWay spec = true) : other = name := by
  obtain ⟨old, hold, -, -, hneeds'⟩ := hm name new hnew
  cases hrole : node.isControlPlane with
  | true => exact hmay.1 other node hnode hrole hway
  | false =>
    cases hrole' : old.isControlPlane with
    | false => exact (hmay.2 old hold hrole').2 other node hnode hway
    | true =>
      -- a worker is under way, so the control plane is done, and `name` with it
      have hselected : node.isSelectedFor spec = true := (Bool.and_eq_true_iff.mp hway).1
      have hdone := ho.workers hnode hselected hrole name old hold hrole'
      simp [hneeds' hneeds] at hdone

theorem InOrder.marks {name : String} (ho : h.InOrder spec) (hmay : h.MayMark spec name)
    (hm : Marks spec name h h') : h'.InOrder spec where
  single {x y a b} ha hwaya hb hwayb := by
    have hneedsa : a.needsUpgrade spec = true := (Bool.and_eq_true_iff.mp hwaya).2
    have hneedsb : b.needsUpgrade spec = true := (Bool.and_eq_true_iff.mp hwayb).2
    -- each of the two is the node that was marked just now, or was under way before
    rcases hm.underWay ha hwaya with rfl | ⟨a', ha', -, hwaya'⟩ <;>
      rcases hm.underWay hb hwayb with rfl | ⟨b', hb', -, hwayb'⟩
    · rfl
    · exact (ho.eq_of_mayMark hmay hm ha hneedsa hb' hwayb').symm
    · exact ho.eq_of_mayMark hmay hm hb hneedsb ha' hwaya'
    · exact ho.single ha' hwaya' hb' hwayb'
  workers {x a} ha hselected hrole := by
    obtain ⟨old, hold, hsame, -, -⟩ := hm x a ha
    have hworker : old.isControlPlane = false := hsame.symm.trans hrole
    rcases hm.selected ha hselected with rfl | ⟨old', hold', hsame', hselected', -⟩
    · exact hm.controlPlaneDone (hmay.2 old hold hworker).1
    · exact hm.controlPlaneDone (ho.workers hold' hselected' (hsame'.symm.trans hrole))

theorem InOrder.proceeds (ho : h.InOrder spec) (hp : Proceeds spec h h') : h'.InOrder spec := by
  rcases hp with hcalm | ⟨name, hmay, hm⟩
  · exact ho.calm hcalm
  · exact ho.marks hmay hm

/-- A change from outside: one node gets a new record, in the same role and with the same selection
label, and at the target if it was there. -/
def Outside (spec : Spec) (h h' : History) : Prop :=
  ∃ old new, h.find? new.name = some old ∧ h.Adds (.stored new) h' ∧
    new.isControlPlane = old.isControlPlane ∧
    new.marker? = old.marker? ∧
    (old.needsUpgrade spec = false → new.needsUpgrade spec = false)

theorem Outside.calm (ho : Outside spec h h') : Calm spec h h' := by
  obtain ⟨old, new, hold, hadds, hrole, hselection, hneeds⟩ := ho
  intro name node hnode
  rw [hadds.find?_stored] at hnode
  split at hnode
  next hname =>
    obtain rfl := Option.some.inj hnode
    refine ⟨old, hname ▸ hold, hrole, ?_, ?_⟩
    · intro value hvalue
      exact hselection.symm.trans hvalue
    · intro hbehind
      by_contra hat
      simp [hneeds (by simpa using hat)] at hbehind
  next => exact ⟨node, hnode, rfl, fun _ => id, id⟩

end History

/-- The stored nodes and the loops at work on them: a pass that may be under way, and the syncs. -/
structure Fleet where
  nodes : History
  pass : Option (Program Cluster (Except Failure PassOutcome))
  syncs : List (Program Cluster (Except Failure SyncOutcome))

namespace Fleet

/-- One step of a run for `spec`: a change from outside, one call of a loop, or a loop that begins
or is left. -/
inductive Step (spec : Spec) : Fleet → Fleet → Prop where
  | outside {s : Fleet} {nodes : History} (change : History.Outside spec s.nodes nodes) :
      Step spec s { s with nodes }
  | beginPass {s : Fleet} (idle : s.pass = none) (settings : Settings) :
      Step spec s { s with pass := some (Pass.run settings spec).run }
  | callPass {s : Fleet} {nodes : History} {c : ClusterCall} {answer : c.Answer}
      {next : c.Answer → Program Cluster (Except Failure PassOutcome)}
      (pass : s.pass = some (.ask c next)) (serves : s.nodes.Serves c answer nodes) :
      Step spec s { s with nodes, pass := some (next answer) }
  | leavePass {s : Fleet} : Step spec s { s with pass := none }
  | beginSync {s : Fleet} {node : Node} (seen : node ∈ s.nodes.records) :
      Step spec s { s with syncs := (Sync.run node spec).run :: s.syncs }
  | callSync {s : Fleet} {nodes : History} {c : ClusterCall} {answer : c.Answer}
      {next : c.Answer → Program Cluster (Except Failure SyncOutcome)}
      {before after : List (Program Cluster (Except Failure SyncOutcome))}
      (syncs : s.syncs = before ++ .ask c next :: after)
      (serves : s.nodes.Serves c answer nodes) :
      Step spec s { s with nodes, syncs := before ++ next answer :: after }

/-- What holds in every state of a run: the order, and what the loops at work still assure. -/
structure Invariant (spec : Spec) (s : Fleet) : Prop where
  inOrder : s.nodes.InOrder spec
  pass : ∀ p, s.pass = some p →
    Assures (History.calmly spec) (across (History.Proceeds spec)) p (fun _ _ => True) s.nodes
  syncs : ∀ p ∈ s.syncs,
    Assures History.freely (across (History.Calm spec)) p (fun _ _ => True) s.nodes

open History

theorem Invariant.step {spec : Spec} {s t : Fleet} (hi : Invariant spec s) (hstep : Step spec s t) :
    Invariant spec t := by
  cases hstep with
  | outside change =>
    exact {
      inOrder := hi.inOrder.calm change.calm
      pass := fun p hp => (hi.pass p hp).others change.calm
      syncs := fun p hp => (hi.syncs p hp).others trivial }
  | beginPass idle settings =>
    refine { inOrder := hi.inOrder, syncs := hi.syncs, pass := ?_ }
    intro p hp
    obtain rfl := Option.some.inj hp
    exact Pass.assures_run settings spec s.nodes
  | @callPass nodes c answer next pass serves =>
    obtain ⟨hproceeds, hrest⟩ := hi.pass _ pass s.nodes (Calm.refl spec s.nodes) answer nodes serves
    refine {
      inOrder := hi.inOrder.proceeds hproceeds
      syncs := fun p hp => (hi.syncs p hp).others trivial
      pass := ?_ }
    intro p hp
    obtain rfl := Option.some.inj hp
    exact hrest
  | leavePass => exact { inOrder := hi.inOrder, syncs := hi.syncs, pass := by simp }
  | @beginSync node seen =>
    refine { inOrder := hi.inOrder, pass := hi.pass, syncs := ?_ }
    exact List.forall_mem_cons.mpr ⟨Sync.assures_calm spec spec node s.nodes, hi.syncs⟩
  | @callSync nodes c answer next before after syncs serves =>
    have hsync := hi.syncs (.ask c next) (by simp [syncs])
    obtain ⟨hcalm, hrest⟩ := hsync s.nodes trivial answer nodes serves
    refine {
      inOrder := hi.inOrder.calm hcalm
      pass := fun p hp => (hi.pass p hp).others hcalm
      syncs := ?_ }
    -- the sync that called goes on with the rest, the other ones see a change by others
    intro p hp
    rcases List.mem_append.mp hp with hp | hp
    · exact (hi.syncs p (by simp [syncs, hp])).others trivial
    rcases List.mem_cons.mp hp with rfl | hp
    · exact hrest
    · exact (hi.syncs p (by simp [syncs, hp])).others trivial

theorem Invariant.run {spec : Spec} {s t : Fleet} (hi : Invariant spec s)
    (hrun : Relation.ReflTransGen (Step spec) s t) : Invariant spec t := by
  induction hrun with
  | refl => exact hi
  | tail _ hstep ih => exact ih.step hstep

/-- When no node carries the marker for the target at first, then at any point of a run at most
one node is under way, and while a worker carries the marker every control-plane node is at the
target. -/
theorem run_inOrder {spec : Spec} {s t : Fleet} (hpass : s.pass = none) (hsyncs : s.syncs = [])
    (hstart : ∀ name node, s.nodes.find? name = some node → node.isSelectedFor spec = false)
    (hrun : Relation.ReflTransGen (Step spec) s t) :
    (∀ x y a b, t.nodes.find? x = some a → a.isUnderWay spec = true →
      t.nodes.find? y = some b → b.isUnderWay spec = true → x = y) ∧
    (∀ x a, t.nodes.find? x = some a → a.isSelectedFor spec = true → a.isControlPlane = false →
      ∀ y b, t.nodes.find? y = some b → b.isControlPlane = true → b.needsUpgrade spec = false) := by
  have hfirst : Invariant spec s := {
    inOrder := {
      single := fun ha hway _ _ => by simp [Node.isUnderWay, hstart _ _ ha] at hway
      workers := fun ha hselected _ => by simp [hstart _ _ ha] at hselected }
    pass := by simp [hpass]
    syncs := by simp [hsyncs] }
  have hlast := hfirst.run hrun
  exact ⟨fun x y a b ha hwaya hb hwayb => hlast.inOrder.single ha hwaya hb hwayb,
    fun x a ha hselected hrole => hlast.inOrder.workers ha hselected hrole⟩

def sampleSpec : Spec := { kubeVersion := "v1.29.1" }

def oldControlPlane : Node :=
  { name := "cp1", resourceVersion := some "1", labels := .singleton Label.controlPlane "" }

def oldWorker : Node := { name := "w1", resourceVersion := some "1" }

def markedControlPlane : Node :=
  oldControlPlane.relabel (Pass.selectPlan sampleSpec oldControlPlane) (some "2")

def oldNodes : History := ⟨[.stored oldControlPlane, .stored oldWorker], by decide, by decide⟩

def markedNodes : History := oldNodes.store markedControlPlane (by decide) (by decide)

theorem isSnapshot_oldNodes : oldNodes.IsSnapshot [oldControlPlane, oldWorker] :=
  isSnapshot_of_records (by decide) (by decide) (by decide)

theorem run_marks : ∃ t, Relation.ReflTransGen (Step sampleSpec) ⟨oldNodes, none, []⟩ t ∧
    t.nodes = markedNodes := by
  have hlist : oldNodes.Serves .list (.ok [oldControlPlane, oldWorker]) oldNodes := by
    refine ⟨rfl, ?_⟩
    rintro nodes ⟨⟩
    exact isSnapshot_oldNodes
  have hpatch : oldNodes.Serves
      (.patch oldControlPlane (Pass.selectPlan sampleSpec oldControlPlane)) (.ok ()) markedNodes :=
    .inl ⟨oldControlPlane, some "2", by decide, by decide, .inl rfl⟩
  have hbegin : Step sampleSpec ⟨oldNodes, none, []⟩ _ := .beginPass rfl {}
  have hlisted := (Relation.ReflTransGen.single hbegin).tail (.callPass rfl hlist)
  exact ⟨_, hlisted.tail (.callPass rfl hpatch), rfl⟩

theorem run_inOrder_marked : ∃ t,
    Relation.ReflTransGen (Step sampleSpec) ⟨oldNodes, none, []⟩ t ∧ t.nodes = markedNodes ∧
      ∀ x a, t.nodes.find? x = some a → a.isUnderWay sampleSpec = true → x = "cp1" := by
  obtain ⟨t, hrun, hnodes⟩ := run_marks
  refine ⟨t, hrun, hnodes, ?_⟩
  intro x a ha hway
  have hstart : ∀ name node, oldNodes.find? name = some node →
      node.isSelectedFor sampleSpec = false := by
    intro name node hnode
    have hmem : ∀ old ∈ oldNodes.records, old.isSelectedFor sampleSpec = false := by decide
    exact hmem node (mem_records hnode)
  have hmarked : t.nodes.find? "cp1" = some markedControlPlane := by
    rw [hnodes]
    decide
  exact (run_inOrder rfl rfl hstart hrun).1 x "cp1" a markedControlPlane ha hway hmarked (by decide)

end Fleet

end NodeRollout
