import NodeRollout.Proofs.CompletionLabel
import NodeRollout.Proofs.Writers

/-! Whether a pass marks only nodes that are behind the target. It asks so of the record by which it
selects a node. After a conflict it plans the mark again on a fresh read, and of that it only asks
whether the marker is there. So every node is behind when it is marked, exactly when nobody else
brings a node to the target that is not marked. -/
namespace NodeRollout

/-- What others may do to any one node between two calls, given as the records that are stored before
and after, if there are any. -/
structure NodeChanges where
  Allows : Option Node → Option Node → Prop
  idle : ∀ node, Allows node node
  chain : ∀ {a b c}, Allows a b → Allows b c → Allows a c

namespace NodeChanges

/-- Others may do to every node what is allowed for one. -/
def interference (w : NodeChanges) : Interference where
  Allows h h' := h.Extends h' ∧ ∀ name, w.Allows (h.find? name) (h'.find? name)
  idle h := ⟨History.Extends.refl h, fun name => w.idle (h.find? name)⟩
  chain a b := ⟨a.1.trans b.1, fun name => w.chain (a.2 name) (b.2 name)⟩
  grows a := a.1

/-- Anything may happen to a node. -/
def any : NodeChanges := ⟨fun _ _ => True, fun _ => trivial, fun _ _ => trivial⟩

/-- Nothing happens to a node. -/
def quiet : NodeChanges := ⟨Eq, fun _ => rfl, Eq.trans⟩

/-- A node behind the target and without the marker is still behind while others leave it so. -/
def KeepsBehind (w : NodeChanges) (spec : Spec) : Prop :=
  ∀ old new : Node, w.Allows (some old) (some new) → new.name = old.name →
    old.resourceVersion.isSome → new.resourceVersion.isSome →
    new.resourceVersion ≠ old.resourceVersion → old.isCandidate spec = true →
    new.isSelectedFor spec = false → new.needsUpgrade spec = true

end NodeChanges

namespace Pass

variable {w : NodeChanges} {settings : Settings} {spec : Spec} {h h' : History} {node old new : Node}

/-- A write that sets the marker for the target finds the node behind it. -/
def MarksBehind (spec : Spec) (m : Moment Cluster History) : Prop :=
  ∀ seen changes, m.event = ⟨.patch seen changes, .ok ()⟩ →
    changes.get? Label.selection = some (some spec.selectionValue) →
    ∃ old, m.before.find? seen.name = some old ∧ old.needsUpgrade spec = true

theorem marksBehind_of_read {c : ClusterCall} {answer : c.Answer} (hc : c.isWrite = false) :
    MarksBehind spec ⟨h, ⟨c, answer⟩, h'⟩ := by
  intro seen changes hevent
  cases hevent
  cases hc

/-- The record was stored at some point since when others did only what they may. -/
def Recent (o : Interference) (node : Node) (h : History) : Prop :=
  ∃ since, o.Allows since h ∧ since.find? node.name = some node

theorem isCandidate_iff : node.isCandidate spec = true ↔
    node.isSelectedFor spec = false ∧ node.needsUpgrade spec = true := by
  rw [Node.isCandidate, Bool.and_eq_true, Bool.not_eq_true']

/-- What is read after a conflict is marked, or behind like the record before it. -/
theorem needsUpgrade_of_recent (hkeeps : w.KeepsBehind spec)
    (hold : Recent w.interference old h) (hcandidate : old.isCandidate spec = true)
    (hnew : h.find? old.name = some new) (hselected : new.isSelectedFor spec = false) :
    new.needsUpgrade spec = true := by
  obtain ⟨since, ⟨hextends, hallows⟩, hfind⟩ := hold
  have hchange : w.Allows (some old) (some new) := by
    have hname := hallows old.name
    rwa [hfind, hnew] at hname
  have hmem : old ∈ h.records := hextends.mem (History.mem_records hfind)
  have hmem' : new ∈ h.records := History.mem_records hnew
  have hname : new.name = old.name := History.name_of_find? hnew
  -- one version is one record, and another version is what others made of it since
  by_cases hversion : new.resourceVersion = old.resourceVersion
  · obtain rfl := History.eq_of_version hmem' hmem hname hversion
    exact (isCandidate_iff.mp hcandidate).2
  · exact hkeeps old new hchange hname (History.version_isSome hmem) (History.version_isSome hmem')
      hversion hcandidate hselected

theorem assures_update_marksBehind (hkeeps : w.KeepsBehind spec)
    (hnode : Recent w.interference node h) (hneeds : node.needsUpgrade spec = true) :
    Assures w.interference.setting (MarksBehind spec)
      (LabelUpdate.run node (selectPlan spec)).run (fun _ _ => True) h := by
  cases hselected : node.isSelectedFor spec with
  | true =>
    have hempty : (selectPlan spec node).isEmpty = true := isEmpty_selectPlan.trans hselected
    rw [LabelUpdate.run, LabelUpdate.maxAttempts, LabelUpdate.attempt_succ, if_pos hempty]
    exact Assures.done_true
  | false =>
    have hcandidate : node.isCandidate spec = true := isCandidate_iff.mpr ⟨hselected, hneeds⟩
    have hstored : node ∈ h.records := by
      obtain ⟨since, ⟨hextends, -⟩, hfind⟩ := hnode
      exact hextends.mem (History.mem_records hfind)
    -- `P` holds of the record that a write is planned on, `K` of the one the update began with
    refine LabelUpdate.assures_attempt_seen
      (P := fun seen s => seen ∈ s.records ∧
        (seen.isSelectedFor spec = false → seen.needsUpgrade spec = true))
      (K := fun _ => Recent w.interference node) (D := fun _ _ => True) ?_ ?_ ?_ ?_ ?_ ?_ ?_
      LabelUpdate.maxAttempts ⟨hstored, fun _ => hneeds⟩ hnode
    · intro seen s t hothers hseen
      exact ⟨hothers.1.mem hseen.1, hseen.2⟩
    · rintro n s t hothers ⟨since, hsince, hfind⟩
      exact ⟨since, w.interference.chain hsince hothers, hfind⟩
    · exact fun _ _ => trivial
    · exact fun _ => trivial
    · exact fun _ _ _ => trivial
    · rintro n s seen answer t ⟨hseen, hbehind⟩ hrecent hplan ⟨hserves, hsincere⟩
      refine ⟨?_, ?_⟩
      · -- the write is carried out only on the very record that it was planned for
        intro seen' changes hevent _
        cases hevent
        have hwrites := hserves.resolve_right fun hno => hno.2 rfl
        exact ⟨seen, hwrites.find?_seen hseen, hbehind (isEmpty_selectPlan.symm.trans hplan)⟩
      · cases answer with
        | ok => trivial
        | error failure =>
          cases failure with
          | conflict =>
            obtain rfl : t = s := hsincere (by simp)
            exact hrecent
          | _ => trivial
    · rintro n s answer t hrecent ⟨hserves, -⟩
      obtain rfl : t = s := hserves.1
      refine ⟨marksBehind_of_read rfl, ?_⟩
      cases answer with
      | error failure => trivial
      | ok seen =>
        have hfind := hserves.2 seen rfl
        exact ⟨⟨History.mem_records hfind, needsUpgrade_of_recent hkeeps hrecent hcandidate hfind⟩,
          hrecent⟩

theorem selects_of_keepsBehind (hkeeps : w.KeepsBehind spec) (nodes : List Node) :
    Selects w.interference.setting (MarksBehind spec) spec nodes (Recent w.interference) where
  quiet hc _ := marksBehind_of_read hc
  others := by
    rintro node s t hothers ⟨since, hsince, hfind⟩
    exact ⟨since, w.interference.chain hsince hothers, hfind⟩
  reads := by
    rintro listed s node t - ⟨hserves, -⟩
    obtain rfl : t = s := hserves.1
    exact ⟨t, w.interference.idle t, History.find?_name (hserves.2 node rfl)⟩
  select {node s} hnode hneeds := by
    refine assures_select_of_update (K := fun _ => True)
      ⟨fun _ _ => trivial, fun _ _ _ => trivial⟩ (fun hc _ _ => marksBehind_of_read hc) ?_
    exact assures_update_marksBehind hkeeps hnode hneeds

theorem assures_run_marksBehind (hkeeps : w.KeepsBehind spec) :
    Assures w.interference.setting (MarksBehind spec) (run settings spec).run (fun _ _ => True)
      h := by
  refine assures_run_of_selects (F := fun _ => Recent w.interference)
    (selects_of_keepsBehind hkeeps) ?_
  rintro s nodes t ⟨⟨rfl, hsnapshot⟩, -⟩ node hnode
  exact ⟨t, w.interference.idle t, ((hsnapshot nodes rfl).2 node).mp hnode⟩

section Selecting

variable {E : Setting Cluster History} {m : Moment Cluster History}

theorem makes_controlPlaneTier (hcandidate : node.isCandidate spec = true)
    (hselect : Makes E (select spec node).run m h) :
    Makes E (controlPlaneTier settings spec [node]).run m h := by
  have hway : node.isUnderWay spec = false := by
    simp [Node.isUnderWay, (isCandidate_iff.mp hcandidate).1]
  simp only [controlPlaneTier, List.find?_cons, List.find?_nil, hway, hcandidate]
  exact hselect.attempt _

theorem makes_workerTier (hcandidate : node.isCandidate spec = true)
    (hroom : 0 < spec.workerLimit settings.defaultMaxUnavailable)
    (hread : E.Serves h (.get node.name) (.ok node) h)
    (hselect : Makes E (select spec node).run m h) :
    Makes E (workerTier settings spec [node]).run m h := by
  obtain ⟨hselected, hneeds⟩ := isCandidate_iff.mp hcandidate
  have hway : node.isUnderWay spec = false := by simp [Node.isUnderWay, hselected]
  have hunderWay : [node].filter (·.isUnderWay spec) = [] := by simp [hway]
  have hcandidates : [node].filter (·.isCandidate spec) = [node] := by simp [hcandidate]
  have hlimit : min (spec.workerLimit settings.defaultMaxUnavailable) [node].length = 1 :=
    Nat.min_eq_right hroom
  have hbatch : Makes E (selectBatch settings spec 1 [node]).run m h := by
    refine Makes.ask _ hread ?_
    simp only [Program.andThen, ExceptT.bindCont, hneeds]
    exact hselect.attempt _
  unfold workerTier
  dsimp only
  rw [hunderWay, hcandidates, hlimit]
  exact hbatch.attempt _

/-- A pass that lists this candidate alone selects it. -/
theorem makes_run (hnoop : spec.isNoop = false) (hcandidate : node.isCandidate spec = true)
    (hroom : 0 < spec.workerLimit settings.defaultMaxUnavailable)
    (hlist : E.Serves h .list (.ok [node]) h) (hread : E.Serves h (.get node.name) (.ok node) h)
    (hselect : Makes E (select spec node).run m h) : Makes E (run settings spec).run m h := by
  obtain ⟨hselected, hneeds⟩ := isCandidate_iff.mp hcandidate
  rw [run_eq hnoop]
  refine Makes.ask _ hlist ?_
  have hany : [node].any (·.needsUpgrade spec) = true := by simp [hneeds]
  simp only [afterList, hany]
  cases hrole : node.isControlPlane with
  | true =>
    have hplanes : [node].filter (·.isControlPlane) = [node] := by simp [hrole]
    rw [hplanes]
    exact (makes_controlPlaneTier hcandidate hselect).attempt _
  | false =>
    have hplanes : [node].filter (·.isControlPlane) = [] := by simp [hrole]
    have hworkers : [node].filter (!·.isControlPlane) = [node] := by simp [hrole]
    rw [hplanes, hworkers]
    exact makes_workerTier hcandidate hroom hread hselect

end Selecting

/-- Between the reading of a candidate and the write, others may bring it to the target. After the
conflict the pass marks it all the same. -/
theorem makes_mark_of_changed (o : Interference) (hnoop : spec.isNoop = false)
    (hlist : h.IsSnapshot [old]) (hcandidate : old.isCandidate spec = true)
    (hothers : o.Allows h h') (hnew : h'.find? old.name = some new)
    (hselected : new.isSelectedFor spec = false) :
    ∃ after, Makes o.setting (run {} spec).run
      ⟨h', ⟨.patch new (selectPlan spec new), .ok ()⟩, after⟩ h := by
  have hplan : (selectPlan spec old).isEmpty = false :=
    isEmpty_selectPlan.trans (isCandidate_iff.mp hcandidate).1
  obtain ⟨ms, after, hupdate, hm⟩ := LabelUpdate.exists_course_of_conflict o hplan hothers hnew
    (isEmpty_selectPlan.trans hselected)
  have hstored : h.find? old.name = some old := (hlist.2 old).mp (List.mem_singleton.mpr rfl)
  have hserved : o.setting.Serves h .list (.ok [old]) h := by
    refine ⟨⟨rfl, ?_⟩, trivial⟩
    rintro nodes ⟨⟩
    exact hlist
  have hread : o.setting.Serves h (.get old.name) (.ok old) h := by
    refine ⟨⟨rfl, ?_⟩, by simp [History.Sincere]⟩
    rintro node ⟨⟩
    exact hstored
  have hselect : Makes o.setting (select spec old).run
      ⟨h', ⟨.patch new (selectPlan spec new), .ok ()⟩, after⟩ h :=
    Makes.attempt _ ⟨ms, after, _, hupdate, hm⟩
  exact ⟨after, makes_run hnoop hcandidate (spec.workerLimit_pos Nat.two_pos) hserved hread hselect⟩

theorem marks_selectPlan (hselected : node.isSelectedFor spec = false) :
    (selectPlan spec node).get? Label.selection = some (some spec.selectionValue) :=
  (get?_selectPlan hselected).1

/-- The history of a cluster with one node. -/
def alone (node : Node) (hversion : node.resourceVersion.isSome) : History :=
  ⟨[.stored node], by simpa [Change.node?] using hversion, by simp [Change.node?]⟩

theorem find?_alone (hversion : node.resourceVersion.isSome) (name : String) :
    (alone node hversion).find? name = if name = node.name then some node else none := by
  by_cases hname : name = node.name
  · simp [alone, History.find?, Change.name, Change.node?, hname]
  · have hother : (node.name == name) = false := beq_false_of_ne fun h => hname h.symm
    simp [alone, History.find?, Change.name, hother, hname]

theorem isSnapshot_alone (hversion : node.resourceVersion.isSome) :
    (alone node hversion).IsSnapshot [node] := by
  refine History.isSnapshot_of_records (by simp) ?_ (by simp [alone, History.records, Change.node?])
  simp [find?_alone]

theorem keepsBehind_of_marksBehind (hnoop : spec.isNoop = false)
    (hmarks : ∀ settings h ms t p, Course w.interference.setting h (run settings spec).run ms t p →
      ∀ m ∈ ms, MarksBehind spec m) : w.KeepsBehind spec := by
  intro old new hchange hname hold hnew hversions hcandidate hselected
  -- the node is alone in its cluster, so that the pass comes to it
  have hfresh : ∀ node ∈ (alone old hold).records, new.name = node.name →
      new.resourceVersion ≠ node.resourceVersion := by
    simpa [alone, History.records, Change.node?] using fun _ => hversions
  have hadds : (alone old hold).Adds (.stored new) ((alone old hold).store new hnew hfresh) := rfl
  have hothers : w.interference.Allows (alone old hold) ((alone old hold).store new hnew hfresh) := by
    refine ⟨hadds.extends, ?_⟩
    intro name
    rw [hadds.find?_stored, find?_alone, hname]
    split
    · exact hchange
    · exact w.idle none
  have hstored : ((alone old hold).store new hnew hfresh).find? old.name = some new := by
    rw [hadds.find?_stored, if_pos hname.symm]
  obtain ⟨after, ms, t, p, hcourse, hm⟩ := makes_mark_of_changed w.interference hnoop
    (isSnapshot_alone hold) hcandidate hothers hstored hselected
  obtain ⟨found, hfound, hneeds⟩ :=
    hmarks {} _ ms t p hcourse _ hm new _ rfl (marks_selectPlan hselected)
  obtain rfl := Option.some.inj ((hname ▸ hstored).symm.trans hfound)
  exact hneeds

/-- For a spec with a target, a pass marks only nodes that are behind it, whatever its calls meet,
exactly when no node that is behind and not marked gets to the target unmarked. -/
theorem marksBehind_iff (w : NodeChanges) (spec : Spec) :
    (∀ settings h ms t p, Course w.interference.setting h (run settings spec).run ms t p →
      ∀ m ∈ ms, MarksBehind spec m) ↔ (spec.isNoop = false → w.KeepsBehind spec) := by
  constructor
  · exact fun hmarks hnoop => keepsBehind_of_marksBehind hnoop hmarks
  · intro hkeeps settings h ms t p hcourse
    have hassures : Assures w.interference.setting (MarksBehind spec) (run settings spec).run
        (fun _ _ => True) h := by
      cases hnoop : spec.isNoop with
      | false => exact assures_run_marksBehind (hkeeps hnoop)
      | true =>
        unfold run
        rw [if_pos hnoop]
        exact Assures.done fun _ _ => trivial
    exact (hassures.course hcourse).2

def behindNodes : History := ⟨[.stored Fleet.oldWorker], by decide, by decide⟩

/-- The worker, once it got to the target by itself. -/
def arrivedWorker : Node :=
  { Fleet.oldWorker with
    resourceVersion := some "2", kubelet := "v1.29.1", kubeProxy := "v1.29.1" }

def arrivedNodes : History := behindNodes.store arrivedWorker (by decide) (by decide)

/-- While nobody interferes a pass marks only nodes that are behind, and among all others not. -/
theorem marksBehind_iff_quiet :
    (∀ settings h ms t p,
      Course NodeChanges.quiet.interference.setting h (run settings Fleet.sampleSpec).run ms t p →
        ∀ m ∈ ms, MarksBehind Fleet.sampleSpec m) ∧
    ¬ ∀ settings h ms t p,
      Course NodeChanges.any.interference.setting h (run settings Fleet.sampleSpec).run ms t p →
        ∀ m ∈ ms, MarksBehind Fleet.sampleSpec m := by
  constructor
  · refine (marksBehind_iff NodeChanges.quiet Fleet.sampleSpec).mpr fun _ => ?_
    intro old new hsame _ _ _ hversions
    obtain rfl := Option.some.inj hsame
    exact absurd rfl hversions
  · intro hmarks
    have hkeeps := (marksBehind_iff NodeChanges.any Fleet.sampleSpec).mp hmarks (by decide)
    have hneeds := hkeeps Fleet.oldWorker arrivedWorker trivial rfl rfl rfl (by decide) (by decide)
      (by decide)
    revert hneeds
    decide

/-- A pass may mark a node that has got to the target since it was read. -/
theorem not_marksBehind_of_finished :
    ¬ ∀ (spec : Spec) (settings : Settings) (h : History) (ms : List (Moment Cluster History))
      (t : History) (p : Program Cluster (Except Failure PassOutcome)),
      Course Interference.any.setting h (run settings spec).run ms t p →
        ∀ m ∈ ms, MarksBehind spec m := by
  intro hmarks
  have hlist : behindNodes.IsSnapshot [Fleet.oldWorker] :=
    History.isSnapshot_of_records (by decide) (by decide) (by decide)
  have hothers : Interference.any.Allows behindNodes arrivedNodes :=
    ⟨[.stored arrivedWorker], rfl⟩
  have hnew : arrivedNodes.find? Fleet.oldWorker.name = some arrivedWorker := by decide
  have hnoop : Fleet.sampleSpec.isNoop = false := by decide
  obtain ⟨after, ms, t, p, hcourse, hm⟩ := makes_mark_of_changed Interference.any hnoop hlist
    (by decide) hothers hnew (by decide)
  obtain ⟨found, hfound, hneeds⟩ :=
    hmarks Fleet.sampleSpec {} _ ms t p hcourse _ hm arrivedWorker _ rfl (by decide)
  obtain rfl := Option.some.inj (hnew.symm.trans hfound)
  revert hneeds
  decide

end Pass

end NodeRollout
