import NodeRollout.Proofs.Marking
import NodeRollout.Proofs.Transcript
import NodeRollout.Reconcile

/-! Who writes which label. A pass writes nothing but the marker, with one value, on nodes that it
listed; the proxy of a node writes to that node alone, to take the marker away and to record that
the target was reached. So the loops need no locks: whatever their calls meet and however they are
interleaved, no two of them write one label in the same way, and none writes anything else. -/
namespace NodeRollout

variable {σ : Type} {E : Setting Cluster σ} {G : Moment Cluster σ → Prop} {s : σ} {spec : Spec}

/-- A read answers with no other node than the one that was asked for. -/
def Setting.Named (E : Setting Cluster σ) : Prop :=
  ∀ {s name seen t}, E.Serves s (.get name) (.ok seen) t → seen.name = name

/-- Calls that write nothing satisfy `G`. -/
def Setting.Quiet (E : Setting Cluster σ) (G : Moment Cluster σ → Prop) : Prop :=
  ∀ {s c answer t}, c.isWrite = false → E.Serves s c answer t → G ⟨s, ⟨c, answer⟩, t⟩

/-- All writes of a label update go to its own node. -/
theorem LabelUpdate.assures_named {plan : LabelPlan} {node : Node} (hnamed : E.Named)
    (hquiet : E.Quiet G)
    (hpatch : ∀ {s seen answer t}, seen.name = node.name → (plan seen).isEmpty = false →
      E.Serves s (.patch seen (plan seen)) answer t → G ⟨s, ⟨.patch seen (plan seen), answer⟩, t⟩) :
    Assures E G (run node plan).run (fun _ _ => True) s := by
  refine assures_attempt (P := fun seen => seen.name = node.name) (K := fun _ _ => True)
    ?_ ?_ ?_ ?_ ?_ ?_ maxAttempts rfl trivial
  · exact fun _ _ => trivial
  · exact fun _ _ => trivial
  · exact fun _ => trivial
  · exact fun _ _ _ => trivial
  · intro n s seen answer t hname _ hplan hserves
    refine ⟨hpatch hname hplan hserves, ?_⟩
    split <;> trivial
  · intro n s answer t _ hserves
    refine ⟨hquiet rfl hserves, ?_⟩
    cases answer with
    | ok seen => exact ⟨hnamed hserves, trivial⟩
    | error failure => trivial

namespace Pass

variable {settings : Settings} {nodes : List Node} {F : Node → σ → Prop}

theorem selectPlan_eq {node : Node} (h : (selectPlan spec node).isEmpty = false) :
    selectPlan spec node = .singleton Label.selection (some spec.selectionValue) := by
  have hseen : node.isSelectedFor spec = false := isEmpty_selectPlan.symm.trans h
  simp [selectPlan, hseen]

/-- What a pass over these nodes needs for all of its calls to satisfy `G`. A record that it selects
a node by satisfies `F`, which it has from the list or from the read just before. -/
structure Selects (E : Setting Cluster σ) (G : Moment Cluster σ → Prop) (spec : Spec)
    (nodes : List Node) (F : Node → σ → Prop) : Prop where
  quiet : E.Quiet G
  others : ∀ {node s t}, E.Others s t → F node s → F node t
  reads : ∀ {listed s node t}, listed ∈ nodes → E.Serves s (.get listed.name) (.ok node) t →
    F node t
  select : ∀ {node s}, F node s → node.needsUpgrade spec = true →
    Assures E G (select spec node).run (fun _ _ => True) s

theorem decides_of_quiet (hquiet : E.Quiet G) (settings : Settings) (spec : Spec) (name : String) :
    Wait.Decides E G settings name spec (fun _ => True) (fun _ _ => True) :=
  .of_stable ⟨fun _ _ => trivial, fun _ _ _ => trivial⟩ fun hc hs _ => hquiet hc hs

theorem assures_awaitLast_quiet (hquiet : E.Quiet G) (node : Node) (selected : List String) :
    Assures E G (awaitLast settings spec node selected) (fun _ _ => True) s :=
  assures_awaitLast_of_decides selected (decides_of_quiet hquiet settings spec node.name) trivial

theorem Selects.selectBatch (w : Selects E G spec nodes F) (room : Nat) {workers : List Node}
    (hworkers : ∀ node ∈ workers, node ∈ nodes) :
    Assures E G (selectBatch settings spec room workers).run (fun _ _ => True) s := by
  induction workers generalizing room s with
  | nil => cases room <;> exact Assures.done_true
  | cons listed rest ih =>
    cases room with
    | zero => exact Assures.done_true
    | succ room =>
      obtain ⟨hlisted, hrest⟩ := List.forall_mem_cons.mp hworkers
      rw [Pass.selectBatch]
      refine Assures.attempt (Assures.ask fun t ht answer u hu => ?_)
      refine ⟨w.quiet rfl hu, Assures.done fun v hv => ?_⟩
      cases answer with
      | error failure => exact fun _ _ => trivial
      | ok node =>
        dsimp only
        split
        · exact Assures.done_true
        next hneeds =>
          -- the record to select by is the one just read, not the listed one
          have hF : F node v := w.others hv (w.reads hlisted hu)
          refine Assures.attempt_true (w.select hF (by simpa using hneeds)) fun _ x => ?_
          have hdecides := decides_of_quiet w.quiet settings spec node.name
          have hawait := (assures_await (s := x) hdecides trivial).mono fun _ _ _ => trivial
          refine Assures.lift_true hawait fun reached y => ?_
          cases reached with
          | false => exact Assures.done_true
          | true => exact Assures.attempt_true (ih room hrest) fun _ _ => Assures.done_true

theorem Selects.workerTier (w : Selects E G spec nodes F) {workers : List Node}
    (hworkers : ∀ node ∈ workers, node ∈ nodes) :
    Assures E G (workerTier settings spec workers).run (fun _ _ => True) s := by
  have hdecides := fun node : Node => decides_of_quiet w.quiet settings spec node.name
  have hawait := assures_awaitAll (s := s) hdecides (workers.filter (·.isUnderWay spec)) trivial
  refine Assures.lift_true (hawait.mono fun _ _ _ => trivial) fun stuck t => ?_
  cases stuck with
  | some node => exact Assures.done_true
  | none =>
    have hcandidates : ∀ node ∈ workers.filter (·.isCandidate spec), node ∈ nodes :=
      fun node hnode => hworkers node (List.mem_filter.mp hnode).1
    refine Assures.attempt_true (w.selectBatch _ hcandidates) fun batch u => ?_
    obtain ⟨selected, stuck⟩ := batch
    cases stuck with
    | some name => exact Assures.done_true
    | none =>
      dsimp only
      split <;> exact Assures.done_true

theorem Selects.controlPlaneTier (w : Selects E G spec nodes F) {controlPlanes : List Node}
    (hF : ∀ node ∈ controlPlanes, F node s) :
    Assures E G (controlPlaneTier settings spec controlPlanes).run (fun _ _ => True) s := by
  unfold Pass.controlPlaneTier
  split
  next node hfind =>
    exact Assures.lift_true (assures_awaitLast_quiet w.quiet node []) fun _ _ => Assures.done_true
  next =>
    split
    next node hfind =>
      have hcandidate : node.isCandidate spec = true := by
        simpa using List.find?_some hfind
      have hneeds : node.needsUpgrade spec = true := (Bool.and_eq_true_iff.mp hcandidate).2
      have hselect := w.select (hF node (List.mem_of_find?_eq_some hfind)) hneeds
      refine Assures.attempt_true hselect fun _ t => ?_
      exact Assures.lift_true (assures_awaitLast_quiet w.quiet node _) fun _ _ => Assures.done_true
    next => exact Assures.done_true

theorem Selects.afterList (w : Selects E G spec nodes F) (hF : ∀ node ∈ nodes, F node s) :
    Assures E G (afterList settings spec nodes).run (fun _ _ => True) s := by
  unfold Pass.afterList
  split
  · exact Assures.done_true
  · have hF' : ∀ node ∈ nodes.filter (·.isControlPlane), F node s :=
      fun node hnode => hF node (List.mem_filter.mp hnode).1
    refine Assures.attempt_true (w.controlPlaneTier hF') fun outcome t => ?_
    cases outcome with
    | some outcome => exact Assures.done_true
    | none => exact w.workerTier fun node hnode => (List.mem_filter.mp hnode).1

/-- The rule for a pass by its selections. -/
theorem assures_run_of_selects {F : List Node → Node → σ → Prop}
    (w : ∀ nodes, Selects E G spec nodes (F nodes))
    (hlist : ∀ {s nodes t}, E.Serves s .list (.ok nodes) t → ∀ node ∈ nodes, F nodes node t) :
    Assures E G (run settings spec).run (fun _ _ => True) s := by
  cases hnoop : spec.isNoop with
  | true =>
    unfold run
    rw [if_pos hnoop]
    exact Assures.done_true
  | false =>
    rw [run_eq hnoop]
    refine Assures.ask fun t ht answer u hu => ⟨(w []).quiet rfl hu, ?_⟩
    cases answer with
    | error failure => exact Assures.done_true
    | ok nodes => exact (w nodes).afterList (hlist hu)

/-- Every write of a pass sets the marker on a node of its list. -/
theorem selects_of_named (hnamed : E.Named) (hquiet : E.Quiet G)
    (hpatch : ∀ {s seen answer t}, seen.name ∈ nodes.map Node.name →
      E.Serves s (.patch seen (.singleton Label.selection (some spec.selectionValue))) answer t →
      G ⟨s, ⟨.patch seen (.singleton Label.selection (some spec.selectionValue)), answer⟩, t⟩) :
    Selects E G spec nodes (fun node _ => node.name ∈ nodes.map Node.name) where
  quiet := hquiet
  others _ hname := hname
  reads hlisted hserves := hnamed hserves ▸ List.mem_map_of_mem hlisted
  select {node s} hname hneeds := by
    refine assures_select_of_update (K := fun _ => True)
      ⟨fun _ _ => trivial, fun _ _ _ => trivial⟩ (fun hc hs _ => hquiet hc hs) ?_
    refine LabelUpdate.assures_named hnamed hquiet fun {s seen answer t} hseen hplan => ?_
    rw [selectPlan_eq hplan]
    exact hpatch (hseen ▸ hname)

end Pass

namespace Sync

/-- The changes that a sync writes: the marker goes, and a Kubernetes target may be recorded as
reached. -/
def Clears (spec : Spec) (changes : LabelChanges) : Prop :=
  changes = .singleton Label.selection none ∨
    spec.kubeVersion.isEmpty = false ∧ changes =
      (LabelMap.singleton Label.selection none).insert (Label.completed spec.kubeVersion)
        (some Label.completedValue)

theorem clears_releasePlan {node : Node} (h : (releasePlan spec node).isEmpty = false) :
    Clears spec (releasePlan spec node) := by
  by_cases hstale : node.hasStaleSelection spec = true
  · exact .inl (by simp [releasePlan, hstale])
  · simp [releasePlan, hstale] at h

theorem clears_clearPlan {node : Node} (h : (clearPlan spec node).isEmpty = false) :
    Clears spec (clearPlan spec node) := by
  by_cases hselected : node.isSelected = true
  · by_cases hkube : spec.kubeVersion.isEmpty = true
    · exact .inl (by simp [clearPlan, hselected, hkube])
    · exact .inr ⟨by simpa using hkube, by simp [clearPlan, hselected, hkube]⟩
  · simp [clearPlan, hselected] at h

/-- Every write of a sync clears its own node. -/
theorem assures_run_of_named {node : Node} (hnamed : E.Named) (hquiet : E.Quiet G)
    (hpatch : ∀ {s seen changes answer t}, seen.name = node.name → Clears spec changes →
      E.Serves s (.patch seen changes) answer t → G ⟨s, ⟨.patch seen changes, answer⟩, t⟩) :
    Assures E G (run node spec).run (fun _ _ => True) s := by
  have hupdate : ∀ plan : LabelPlan, (∀ seen, (plan seen).isEmpty = false → Clears spec (plan seen)) →
      Assures E G (LabelUpdate.run node plan).run (fun _ _ => True) s := fun plan hplan =>
    LabelUpdate.assures_named hnamed hquiet fun hname hne => hpatch hname (hplan _ hne)
  unfold run
  -- no target; a stale marker; behind the target; at the target
  split
  · exact Assures.done_true
  split
  · exact Assures.attempt_true (hupdate _ fun _ => clears_releasePlan) fun _ _ => Assures.done_true
  split
  · split
    · exact Assures.done_true
    · refine Assures.attempt_true (Assures.ask fun t ht answer u hu => ?_) fun _ _ =>
        Assures.done_true
      exact ⟨hquiet rfl hu, Assures.done_true⟩
  · exact Assures.attempt_true (hupdate _ fun _ => clears_clearPlan) fun _ _ => Assures.done_true

end Sync

namespace Proxy

variable {self : String} {node : Node}

theorem run_reconcile_other (hname : node.name ≠ self) :
    (reconcile self node).run = .done (.ok .awaitChange) := by
  have hother : (node.name != self) = true := bne_iff_ne.mpr hname
  simp only [reconcile, hother, if_true]
  rfl

/-- Every write of a proxy clears its own node, for whatever spec. -/
theorem assures_reconcile (hnamed : E.Named) (hquiet : E.Quiet G)
    (hpatch : ∀ {spec s seen changes answer t}, seen.name = self → Sync.Clears spec changes →
      E.Serves s (.patch seen changes) answer t → G ⟨s, ⟨.patch seen changes, answer⟩, t⟩) :
    Assures E G (reconcile self node).run (fun _ _ => True) s := by
  by_cases hname : node.name = self
  · subst hname
    have hown : ¬ (node.name != node.name) = true := by simp
    unfold reconcile
    rw [if_neg hown]
    refine Assures.attempt_true (Assures.ask fun t ht answer u hu => ?_) fun upgrades t => ?_
    · exact ⟨hquiet rfl hu, Assures.done_true⟩
    · split
      · exact Assures.done_true
      · refine Assures.attempt_true ?_ fun _ _ => Assures.done_true
        exact Sync.assures_run_of_named hnamed hquiet hpatch
  · rw [run_reconcile_other hname]
    exact Assures.done_true

end Proxy

open Program

namespace Program.Event

/-- A read gives a record of the node that was asked for. -/
def Named : Event Cluster → Prop
  | ⟨.get asked, .ok node⟩ => node.name = asked
  | _ => True

/-- The node that a write goes to and its changes are as `P` says. -/
def Writes (P : String → LabelChanges → Prop) : Event Cluster → Prop
  | ⟨.patch seen changes, _⟩ => P seen.name changes
  | _ => True

theorem writes_of_read {c : ClusterCall} {answer : c.Answer} (hc : c.isWrite = false)
    (P : String → LabelChanges → Prop) : Writes P ⟨c, answer⟩ := by
  cases c with
  | patch => cases hc
  | _ => trivial

end Program.Event

variable {P : String → LabelChanges → Prop} {events : List (Event Cluster)}

/-- Answers of any kind, but for reads that give a record of another node. -/
abbrev anyAnswers : Setting Cluster Unit := .answered Event.Named

theorem named_anyAnswers : anyAnswers.Named := fun hserves => hserves

theorem quiet_anyAnswers : anyAnswers.Quiet fun m => m.event.Writes P :=
  fun hc _ => Event.writes_of_read hc P

theorem Program.Runs.writes {α : Type} {p : Program Cluster α} {result : α}
    (hrun : Runs p events result) (hnamed : ∀ e ∈ events, e.Named)
    (h : Assures anyAnswers (fun m => m.event.Writes P) p (fun _ _ => True) ()) :
    ∀ e ∈ events, e.Writes P := by
  obtain ⟨ms, hcourse, rfl⟩ := hrun.course hnamed
  exact List.forall_mem_map.mpr (h.course hcourse).2

/-- Each write goes to a node of the list that the run began with, and sets the marker. -/
def Pass.MarksListed (spec : Spec) (events : List (Event Cluster)) : Prop :=
  ∀ e ∈ events, e.Writes fun name changes =>
    (∃ nodes rest, events = ⟨.list, .ok nodes⟩ :: rest ∧ name ∈ nodes.map Node.name) ∧
      changes = .singleton Label.selection (some spec.selectionValue)

theorem Pass.marksListed_of_runs {settings : Settings} {result : Except Failure PassOutcome}
    (hrun : Runs (run settings spec).run events result) (hnamed : ∀ e ∈ events, e.Named) :
    MarksListed spec events ∧ (spec.isNoop = true → events = []) := by
  cases hnoop : spec.isNoop with
  | true =>
    unfold run at hrun
    rw [if_pos hnoop] at hrun
    cases hrun
    exact ⟨List.forall_mem_nil _, fun _ => rfl⟩
  | false =>
    refine ⟨?_, nofun⟩
    rw [run_eq hnoop] at hrun
    cases hrun with
    | @ask _ _ rest _ answer hrest =>
      obtain ⟨-, hnamed'⟩ := List.forall_mem_cons.mp hnamed
      refine List.forall_mem_cons.mpr ⟨trivial, ?_⟩
      cases answer with
      | error failure =>
        cases hrest
        exact List.forall_mem_nil _
      | ok nodes =>
        have hnames : ∀ node ∈ nodes, node.name ∈ nodes.map Node.name :=
          fun _ => List.mem_map_of_mem
        refine hrest.writes hnamed'
          ((selects_of_named named_anyAnswers quiet_anyAnswers ?_).afterList hnames)
        exact fun hname _ => ⟨⟨nodes, rest, rfl, hname⟩, rfl⟩

/-- Each write goes to this node, and clears it. -/
def Sync.ClearsOwn (node : Node) (spec : Spec) (events : List (Event Cluster)) : Prop :=
  ∀ e ∈ events, e.Writes fun name changes => name = node.name ∧ Clears spec changes

theorem Sync.clearsOwn_of_runs {node : Node} {result : Except Failure SyncOutcome}
    (hrun : Runs (run node spec).run events result) (hnamed : ∀ e ∈ events, e.Named) :
    ClearsOwn node spec events ∧ (spec.isNoop = true → events = []) := by
  refine ⟨hrun.writes hnamed ?_, ?_⟩
  · exact assures_run_of_named named_anyAnswers quiet_anyAnswers fun hname hclears _ =>
      ⟨hname, hclears⟩
  · intro hnoop
    unfold run at hrun
    rw [if_pos hnoop] at hrun
    cases hrun
    rfl

end NodeRollout
