import NodeRollout.Proofs.Interleaving

/-! The label that records a finished upgrade. A sync sets it with the write that takes the marker
away. It decides to do so on the record that it was handed. After a conflict it plans the write
again on a fresh read, and of that it only asks whether there is a marker at all. So the label is
true of the node exactly when nobody else turns a finished node into a marked one that is behind or
is marked for another target. -/
namespace NodeRollout

namespace Node

/-- The node reports the Kubernetes version of the spec and is marked for its target. -/
structure Finished (spec : Spec) (node : Node) : Prop where
  kubelet : node.kubelet = spec.kubeVersion
  kubeProxy : node.kubeProxy = spec.kubeVersion
  marker : node.marker? = some spec.selectionValue

theorem finished_iff {spec : Spec} {node : Node} (hkube : spec.kubeVersion.isEmpty = false) :
    node.Finished spec ↔ node.isSelectedFor spec = true ∧ node.needsUpgrade spec = false := by
  have hat : node.needsUpgrade spec = false ↔
      spec.kubeVersion = node.kubeProxy ∧ spec.kubeVersion = node.kubelet := by
    simp [needsUpgrade, hkube]
  rw [isSelectedFor_iff, hat]
  constructor
  · intro h
    exact ⟨h.marker, h.kubeProxy.symm, h.kubelet.symm⟩
  · rintro ⟨hmarker, hproxy, hkubelet⟩
    exact ⟨hkubelet.symm, hproxy.symm, hmarker⟩

theorem Finished.isSelected {spec : Spec} {node : Node} (h : node.Finished spec) :
    node.isSelected = true := by
  have hget : node.labels.get? Label.selection = some spec.selectionValue := h.marker
  rw [Node.isSelected, LabelMap.contains, hget, Option.isSome_some]

end Node

/-- What others may do to the stored nodes between two calls. They add records and undo none. -/
structure Interference where
  Allows : History → History → Prop
  idle : ∀ h, Allows h h
  chain : ∀ {h h' h''}, Allows h h' → Allows h' h'' → Allows h h''
  grows : ∀ {h h'}, Allows h h' → h.Extends h'

namespace Interference

/-- Others may do anything. -/
def any : Interference := ⟨History.Extends, History.Extends.refl, History.Extends.trans, id⟩

/-- Others do nothing. -/
def quiet : Interference := ⟨Eq, fun _ => rfl, Eq.trans, fun heq => heq ▸ History.Extends.refl _⟩

/-- A store that keeps versions apart, shared with these others. -/
def setting (o : Interference) : Setting Cluster History where
  Serves h c answer h' := h.Serves c answer h' ∧ h.Sincere c answer h'
  Others := o.Allows
  idle := o.idle
  chain := o.chain

end Interference

/-- Between the record of an update and its write, others may leave another one. After the conflict
the update plans again on that one, and its write is carried out. -/
theorem LabelUpdate.exists_course_of_conflict {plan : LabelPlan} {node new : Node} {h h' : History}
    (o : Interference) (hplan : (plan node).isEmpty = false) (hothers : o.Allows h h')
    (hnew : h'.find? node.name = some new) (hplan' : (plan new).isEmpty = false) :
    ∃ ms after, Course o.setting h (run node plan).run ms after (.done (.ok true)) ∧
      (⟨h', ⟨.patch new (plan new), .ok ()⟩, after⟩ : Moment Cluster History) ∈ ms := by
  obtain ⟨after, hwrites⟩ := History.exists_writes (plan new) (History.find?_name hnew)
  have hconflict : o.setting.Serves h' (.patch node (plan node))
      (.error (.conflict node.name)) h' := ⟨.inr ⟨rfl, by simp⟩, fun _ => rfl⟩
  have hread : o.setting.Serves h' (.get node.name) (.ok new) h' := by
    refine ⟨⟨rfl, ?_⟩, by simp [History.Sincere]⟩
    rintro seen ⟨⟩
    exact hnew
  have hwrite : o.setting.Serves h' (.patch new (plan new)) (.ok ()) after :=
    ⟨.inl hwrites, by simp [History.Sincere]⟩
  have hagain : Course o.setting h' (attempt plan node.name 4 new).run
      [⟨h', ⟨.patch new (plan new), .ok ()⟩, after⟩] after (.done (.ok true)) := by
    rw [attempt_succ, if_neg (by simp [hplan'])]
    exact .call hwrite (.stay _ _)
  refine ⟨[⟨h', ⟨.patch node (plan node), .error (.conflict node.name)⟩, h'⟩,
    ⟨h', ⟨.get node.name, .ok new⟩, h'⟩, ⟨h', ⟨.patch new (plan new), .ok ()⟩, after⟩],
    after, ?_, by simp⟩
  rw [run, maxAttempts, attempt_succ, if_neg (by simp [hplan])]
  exact .others hothers (.call hconflict (.call hread hagain))

namespace Sync

variable {spec : Spec} {node : Node} {h : History}

/-- The changes take the marker away and set the completion label. -/
def Records (spec : Spec) (changes : LabelChanges) : Prop :=
  changes.get? Label.selection = some none ∧
    changes.get? (Label.completed spec.kubeVersion) = some (some Label.completedValue)

/-- A write that records the completion finds the node finished. -/
def TellsTruth (spec : Spec) (m : Moment Cluster History) : Prop :=
  ∀ seen changes, m.event = ⟨.patch seen changes, .ok ()⟩ → Records spec changes →
    ∃ old, m.before.find? seen.name = some old ∧ old.Finished spec

theorem records_clearPlan (hkube : spec.kubeVersion.isEmpty = false) {node : Node}
    (hselected : node.isSelected = true) : Records spec (clearPlan spec node) := by
  have hselection := (Label.completed_ne_selection spec.kubeVersion).symm
  simp [Records, clearPlan, hselected, hkube, hselection]

theorem isEmpty_clearPlan (spec : Spec) (node : Node) :
    (clearPlan spec node).isEmpty = !node.isSelected := by
  cases hselected : node.isSelected with
  | false => simp [clearPlan, hselected]
  | true =>
    by_cases hkube : spec.kubeVersion.isEmpty = true
    · simp [clearPlan, hselected, hkube]
    · simp [clearPlan, hselected, hkube]

/-- To release a node is not to say that it finished. -/
theorem not_records_releasePlan (spec : Spec) (node : Node) :
    ¬ Records spec (releasePlan spec node) := by
  rintro ⟨-, hcompleted⟩
  have hne := Label.completed_ne_selection spec.kubeVersion
  by_cases hstale : node.hasStaleSelection spec = true
  · simp [releasePlan, hstale, hne] at hcompleted
  · simp [releasePlan, hstale] at hcompleted

theorem tellsTruth_of_not_patch {m : Moment Cluster History}
    (hm : m.event.isPatch = false) : TellsTruth spec m := by
  intro seen changes hevent
  rw [hevent] at hm
  cases hm

/-- The clearing update of a finished node, while others leave every marked node finished. -/
theorem assures_clear (o : Interference) (hnode : node ∈ h.records)
    (hkept : ∀ h' new, o.Allows h h' → h'.find? node.name = some new → new.isSelected = true →
      new.Finished spec) :
    Assures o.setting (TellsTruth spec) (LabelUpdate.run node (clearPlan spec)).run
      (fun _ _ => True) h := by
  -- the record in hand was stored once, so a write that succeeds finds that very record
  refine LabelUpdate.assures_attempt_seen
    (P := fun seen s => seen ∈ s.records ∧ seen.name = node.name)
    (K := fun _ s => o.Allows h s) (D := fun _ _ => True) ?_ ?_ ?_ ?_ ?_ ?_ ?_
    LabelUpdate.maxAttempts ⟨hnode, rfl⟩ (o.idle h)
  · intro seen s t hothers hseen
    exact ⟨(o.grows hothers).mem hseen.1, hseen.2⟩
  · intro n s t hothers hs
    exact o.chain hs hothers
  · exact fun _ _ => trivial
  · exact fun _ => trivial
  · exact fun _ _ _ => trivial
  · rintro n s seen answer t ⟨hseen, hname⟩ hs hplan ⟨hserves, hsincere⟩
    refine ⟨?_, ?_⟩
    · intro seen' changes hevent _
      cases hevent
      have hw := hserves.resolve_right fun hno => hno.2 rfl
      have hfind := hw.find?_seen hseen
      have hselected : seen.isSelected = true := by
        simpa [isEmpty_clearPlan] using hplan
      exact ⟨seen, hfind, hkept s seen hs (hname ▸ hfind) hselected⟩
    · match answer with
      | .ok () => trivial
      | .error (.conflict _) =>
        obtain rfl : t = s := hsincere (by simp)
        exact hs
      | .error (.kube _) | .error (.nodeNotFound _) | .error (.selectionTimeout ..)
      | .error (.rpcUnavailable ..) | .error (.remote _) | .error (.protocol _)
      | .error (.commandFailed ..) | .error (.io _) => trivial
  · rintro n s answer t hs ⟨hserves, -⟩
    obtain rfl : t = s := hserves.1
    refine ⟨tellsTruth_of_not_patch rfl, ?_⟩
    cases answer with
    | error failure => trivial
    | ok seen =>
      have hfind := hserves.2 seen rfl
      exact ⟨⟨History.mem_records hfind, History.name_of_find? hfind⟩, hs⟩

/-- A node that carries no marker has nothing to clear. -/
theorem assures_clear_unselected (o : Interference) (hselected : node.isSelected = false) :
    Assures o.setting (TellsTruth spec) (LabelUpdate.run node (clearPlan spec)).run
      (fun _ _ => True) h := by
  have hempty : (clearPlan spec node).isEmpty = true := by
    rw [isEmpty_clearPlan, hselected, Bool.not_false]
  have hdone : (LabelUpdate.run node (clearPlan spec)).run = .done (.ok false) := by
    rw [LabelUpdate.run, LabelUpdate.maxAttempts, LabelUpdate.attempt_succ, if_pos hempty]
  rw [hdone]
  exact Assures.done fun _ _ => trivial

theorem assures_release (o : Interference) :
    Assures o.setting (TellsTruth spec) (LabelUpdate.run node (releasePlan spec)).run
      (fun _ _ => True) h := by
  refine LabelUpdate.assures_run ?_ ?_
  · intro s seen answer t _ _ seen' changes hevent hrecords
    cases hevent
    exact absurd hrecords (not_records_releasePlan spec seen)
  · intro s answer t _
    exact tellsTruth_of_not_patch rfl

theorem assures_run_tellsTruth (o : Interference) (hkube : spec.kubeVersion.isEmpty = false)
    (hnode : node ∈ h.records)
    (hkept : node.Finished spec → ∀ h' new, o.Allows h h' → h'.find? node.name = some new →
      new.isSelected = true → new.Finished spec) :
    Assures o.setting (TellsTruth spec) (run node spec).run (fun _ _ => True) h := by
  unfold run
  split
  · exact Assures.done fun _ _ => trivial
  split
  next hstale =>
    refine Assures.attempt ((assures_release o).mono fun t r _ => ?_)
    cases r with
    | ok released => exact Assures.done fun _ _ => trivial
    | error failure => exact fun _ _ => trivial
  next hfresh =>
    split
    · split
      · exact Assures.done fun _ _ => trivial
      · -- a push writes nothing
        refine Assures.attempt (Assures.ask fun t ht answer u hu => ?_)
        refine ⟨tellsTruth_of_not_patch rfl, Assures.done fun v hv => ?_⟩
        cases answer with
        | ok => exact Assures.done fun _ _ => trivial
        | error failure => exact fun _ _ => trivial
    next hat =>
      have hclear : Assures o.setting (TellsTruth spec) (LabelUpdate.run node (clearPlan spec)).run
          (fun _ _ => True) h := by
        cases hselected : node.isSelectedFor spec with
        | true =>
          have hfinished : node.Finished spec :=
            (Node.finished_iff hkube).mpr ⟨hselected, by simpa using hat⟩
          exact assures_clear o hnode (hkept hfinished)
        | false =>
          have hunmarked : node.isSelected = false := by
            simpa [Node.hasStaleSelection, hselected] using hfresh
          exact assures_clear_unselected o hunmarked
      refine Assures.attempt (hclear.mono fun t r _ => ?_)
      cases r with
      | ok cleared => exact Assures.done fun _ _ => trivial
      | error failure => exact fun _ _ => trivial

/-- For a finished node a sync is the update that clears it. -/
theorem run_finished (hkube : spec.kubeVersion.isEmpty = false) (hfinished : node.Finished spec) :
    (run node spec).run = ((LabelUpdate.run node (clearPlan spec)).run >>= fun
      | .ok cleared => .done (.ok (if cleared then .cleared else .idle))
      | .error failure => .done (.error failure)) := by
  obtain ⟨hselected, hat⟩ := (Node.finished_iff hkube).mp hfinished
  have hstale : node.hasStaleSelection spec = false := by
    simp [Node.hasStaleSelection, hselected]
  have hnoop : spec.isNoop = false := by simp [Spec.isNoop, hkube]
  simp only [run, hnoop, hstale, hat]
  refine congrArg ((LabelUpdate.run node (clearPlan spec)).run >>= ·) ?_
  funext r
  cases r with
  | error failure => rfl
  | ok cleared => cases cleared <;> rfl

/-- Between the record that a sync was handed and its write, others may leave another one. After the
conflict the sync takes that one for finished too, whatever it reports. -/
theorem exists_course_of_changed (o : Interference) (hkube : spec.kubeVersion.isEmpty = false)
    (hfinished : node.Finished spec) {h' : History} {new : Node} (hothers : o.Allows h h')
    (hnew : h'.find? node.name = some new) (hselected : new.isSelected = true) :
    ∃ ms t p after, Course o.setting h (run node spec).run ms t p ∧
      (⟨h', ⟨.patch new (clearPlan spec new), .ok ()⟩, after⟩ : Moment Cluster History) ∈ ms := by
  have hplan : (clearPlan spec node).isEmpty = false := by
    rw [isEmpty_clearPlan, hfinished.isSelected, Bool.not_true]
  have hplan' : (clearPlan spec new).isEmpty = false := by
    rw [isEmpty_clearPlan, hselected, Bool.not_true]
  obtain ⟨ms, after, hupdate, hm⟩ :=
    LabelUpdate.exists_course_of_conflict o hplan hothers hnew hplan'
  rw [run_finished hkube hfinished]
  exact ⟨ms, _, _, after, hupdate.bind _, hm⟩

/-- Whatever its store calls meet, a sync tells the truth about a completion, exactly when it was
not handed a finished node or when others leave that node finished for as long as it is marked. -/
theorem tellsTruth_iff (o : Interference) (hkube : spec.kubeVersion.isEmpty = false)
    (hnode : node ∈ h.records) :
    (∀ ms t p, Course o.setting h (run node spec).run ms t p → ∀ m ∈ ms, TellsTruth spec m) ↔
      (node.Finished spec → ∀ h' new, o.Allows h h' → h'.find? node.name = some new →
        new.isSelected = true → new.Finished spec) := by
  constructor
  · intro htruth hfinished h' new hothers hnew hselected
    obtain ⟨ms, t, p, after, hcourse, hm⟩ :=
      exists_course_of_changed o hkube hfinished hothers hnew hselected
    obtain ⟨old, hold, hold'⟩ :=
      htruth ms t p hcourse _ hm new _ rfl (records_clearPlan hkube hselected)
    obtain rfl := Option.some.inj (hold.symm.trans (History.find?_name hnew))
    exact hold'
  · intro hkept ms t p hcourse
    exact ((assures_run_tellsTruth o hkube hnode hkept).course hcourse).2

def finishedWorker : Node :=
  { name := "w1", resourceVersion := some "1", labels := .singleton Label.selection "v1.29.1",
    kubelet := "v1.29.1", kubeProxy := "v1.29.1" }

def finishedNodes : History := ⟨[.stored finishedWorker], by decide, by decide⟩

/-- The same worker after it went back to an old version and was marked for another target. -/
def reselectedWorker : Node :=
  { finishedWorker with
    resourceVersion := some "2", labels := .singleton Label.selection "v1.30.0",
    kubelet := "v1.28.0", kubeProxy := "v1.28.0" }

def reselectedNodes : History := finishedNodes.store reselectedWorker (by decide) (by decide)

theorem finished_finishedWorker : finishedWorker.Finished Fleet.sampleSpec :=
  (Node.finished_iff (by decide)).mpr ⟨by decide, by decide⟩

theorem not_finished_reselectedWorker : ¬ reselectedWorker.Finished Fleet.sampleSpec := by
  intro hfinished
  have hkubelet := hfinished.kubelet
  revert hkubelet
  decide

/-- A sync of a finished worker tells the truth while nobody interferes, and not among all
others. -/
theorem tellsTruth_iff_finishedWorker :
    (∀ ms t p, Course Interference.quiet.setting finishedNodes
      (run finishedWorker Fleet.sampleSpec).run ms t p →
        ∀ m ∈ ms, TellsTruth Fleet.sampleSpec m) ∧
    ¬ ∀ ms t p, Course Interference.any.setting finishedNodes
      (run finishedWorker Fleet.sampleSpec).run ms t p →
        ∀ m ∈ ms, TellsTruth Fleet.sampleSpec m := by
  have hkube : Fleet.sampleSpec.kubeVersion.isEmpty = false := by decide
  have hstored : finishedWorker ∈ finishedNodes.records := by decide
  constructor
  · refine (tellsTruth_iff Interference.quiet hkube hstored).mpr ?_
    rintro hfinished h' new rfl hnew -
    have hsame : finishedNodes.find? finishedWorker.name = some finishedWorker := by decide
    obtain rfl := Option.some.inj (hsame.symm.trans hnew)
    exact hfinished
  · intro htruth
    have hothers : Interference.any.Allows finishedNodes reselectedNodes :=
      ⟨[.stored reselectedWorker], rfl⟩
    have hkept := (tellsTruth_iff Interference.any hkube hstored).mp htruth finished_finishedWorker
    exact not_finished_reselectedWorker
      (hkept reselectedNodes reselectedWorker hothers (by decide) (by decide))

/-- A sync may record a completion of a node that is behind and marked for another target. -/
theorem not_tellsTruth_of_reselected :
    ¬ ∀ (spec : Spec) (node : Node) (h : History) (ms : List (Moment Cluster History)) (t : History)
      (p : Program Cluster (Except Failure SyncOutcome)), spec.kubeVersion.isEmpty = false →
      node ∈ h.records → Course Interference.any.setting h (run node spec).run ms t p →
      ∀ m ∈ ms, TellsTruth spec m := by
  intro htruth
  have hothers : Interference.any.Allows finishedNodes reselectedNodes :=
    ⟨[.stored reselectedWorker], rfl⟩
  have hnew : reselectedNodes.find? finishedWorker.name = some reselectedWorker := by decide
  obtain ⟨ms, t, p, after, hcourse, hm⟩ := exists_course_of_changed Interference.any (by decide)
    finished_finishedWorker hothers hnew (by decide)
  have hrecords : Records Fleet.sampleSpec (clearPlan Fleet.sampleSpec reselectedWorker) :=
    records_clearPlan (by decide) (by decide)
  obtain ⟨old, hold, hfinished⟩ :=
    htruth _ _ _ ms t p (by decide) (by decide) hcourse _ hm reselectedWorker _ rfl hrecords
  obtain rfl := Option.some.inj (hold.symm.trans hnew)
  exact not_finished_reselectedWorker hfinished

end Sync

end NodeRollout
