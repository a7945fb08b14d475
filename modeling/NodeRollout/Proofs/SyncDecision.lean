import Mathlib.Tactic.MkIffOfInductiveProp
import NodeRollout.Proofs.CompletionLabel
import NodeRollout.Store

/-! What one sync decides, on a store that nobody else writes to. The marker of the node and the
versions that it reports decide everything, and the decision is carried out by at most one call. A
sync that wrote leaves a node with which the next one has nothing to do. -/
namespace NodeRollout

open Program

namespace Node

variable {spec : Spec} {node : Node}

/-- The node carries the marker for the target and has not reached it: it mismatches, in the
versions that `Node.needsUpgrade_iff` compares. -/
@[mk_iff]
structure Due (spec : Spec) (node : Node) : Prop where
  target : spec.isNoop = false
  marker : node.marker? = some spec.selectionValue
  behind : node.needsUpgrade spec = true

/-- The node carries a marker with another value than that of the target. -/
@[mk_iff]
structure Strayed (spec : Spec) (node : Node) : Prop where
  target : spec.isNoop = false
  marker : ∃ value, node.marker? = some value ∧ value ≠ spec.selectionValue

/-- The node carries the marker for the target and has reached it. -/
@[mk_iff]
structure Arrived (spec : Spec) (node : Node) : Prop where
  target : spec.isNoop = false
  marker : node.marker? = some spec.selectionValue
  current : node.needsUpgrade spec = false

/-- Without a marker there is nothing to do but to wait for one. -/
@[mk_iff]
structure Unmarked (spec : Spec) (node : Node) (behind : Bool) : Prop where
  target : spec.isNoop = false
  marker : node.marker? = none
  needs : node.needsUpgrade spec = behind

theorem hasStaleSelection_iff :
    node.hasStaleSelection spec = true ↔
      ∃ value, node.marker? = some value ∧ value ≠ spec.selectionValue := by
  have hmarker : node.labels.get? Label.selection = node.marker? := rfl
  rw [hasStaleSelection, isSelected, LabelMap.contains, isSelectedFor, hmarker]
  cases node.marker? <;> simp

theorem Due.excludes (h : node.Due spec) :
    ¬ node.Strayed spec ∧ ¬ node.Arrived spec ∧ ∀ behind, ¬ node.Unmarked spec behind := by
  simp [strayed_iff, arrived_iff, unmarked_iff, h.marker, h.behind]

theorem Strayed.excludes (h : node.Strayed spec) :
    ¬ node.Due spec ∧ ¬ node.Arrived spec ∧ ∀ behind, ¬ node.Unmarked spec behind := by
  obtain ⟨value, hmarker, hne⟩ := h.marker
  simp [due_iff, arrived_iff, unmarked_iff, hmarker, hne]

theorem Arrived.excludes (h : node.Arrived spec) :
    ¬ node.Due spec ∧ ¬ node.Strayed spec ∧ ∀ behind, ¬ node.Unmarked spec behind := by
  simp [due_iff, strayed_iff, unmarked_iff, h.marker, h.current]

theorem Unmarked.excludes {behind : Bool} (h : node.Unmarked spec behind) :
    ¬ node.Due spec ∧ ¬ node.Strayed spec ∧ ¬ node.Arrived spec ∧
      ∀ behind', node.Unmarked spec behind' ↔ behind' = behind := by
  simp [due_iff, strayed_iff, arrived_iff, unmarked_iff, h.target, h.marker, h.needs, eq_comm]

theorem excludes_of_noTarget (h : spec.isNoop = true) :
    ¬ node.Due spec ∧ ¬ node.Strayed spec ∧ ¬ node.Arrived spec ∧
      ∀ behind, ¬ node.Unmarked spec behind := by
  simp [due_iff, strayed_iff, arrived_iff, unmarked_iff, h]

/-- With a target, the marker and the reported versions leave four cases. -/
theorem due_or_strayed_or_arrived_or_unmarked (hnoop : spec.isNoop = false) (node : Node) :
    node.Due spec ∨ node.Strayed spec ∨ node.Arrived spec ∨
      ∃ behind, node.Unmarked spec behind := by
  cases hmarker : node.marker? with
  | none => exact .inr (.inr (.inr ⟨_, hnoop, hmarker, rfl⟩))
  | some value =>
    by_cases hvalue : value = spec.selectionValue
    · subst hvalue
      cases hneeds : node.needsUpgrade spec with
      | true => exact .inl ⟨hnoop, hmarker, hneeds⟩
      | false => exact .inr (.inr (.inl ⟨hnoop, hmarker, hneeds⟩))
    · exact .inr (.inl ⟨hnoop, value, hmarker, hvalue⟩)

end Node

namespace Store

variable {store : Store} {node : Node} {changes : LabelChanges}

/-- A store as its calls are answered when it is the only one to change. A push is answered by the
agent, and the other calls anyhow. -/
def Answers (pushed : PushRequest → Except Failure Unit) (store : Store) :
    (c : ClusterCall) → c.Answer → Store → Prop
  | .list, answer, store' => answer = .ok store.list ∧ store' = store
  | .get name, answer, store' => answer = store.get name ∧ store' = store
  | .patch seen changes, answer, store' =>
    match store.patch seen changes with
    | .ok after => answer = .ok () ∧ store' = after
    | .error failure => answer = .error failure ∧ store' = store
  | .push request, answer, store' => answer = pushed request ∧ store' = store
  | .readUntil name _ _, answer, store' =>
    (∀ ended read, answer = some (ended, read) → read = store.get name) ∧ store' = store
  | _, _, store' => store' = store

def alone (pushed : PushRequest → Except Failure Unit) : Setting Cluster Store where
  Serves := Answers pushed
  Others := Eq
  idle _ := rfl
  chain := Eq.trans

theorem exists_answers (pushed : PushRequest → Except Failure Unit) (store : Store)
    (c : ClusterCall) : ∃ answer store', Answers pushed store c answer store' := by
  cases c with
  | list => exact ⟨_, _, rfl, rfl⟩
  | get name => exact ⟨_, _, rfl, rfl⟩
  | patch seen changes =>
    simp only [Answers]
    cases store.patch seen changes with
    | ok after => exact ⟨_, _, rfl, rfl⟩
    | error failure => exact ⟨_, _, rfl, rfl⟩
  | push request => exact ⟨_, _, rfl, rfl⟩
  | upgrades => exact ⟨.ok [], _, rfl⟩
  | now => exact ⟨(0 : Nat), _, rfl⟩
  | readUntil name start deadline => exact ⟨none, _, nofun, rfl⟩
  | sleepUntil time => exact ⟨(), _, rfl⟩
  | count sample => exact ⟨(), _, rfl⟩

/-- A write for the record that is stored is carried out. -/
theorem patch_of_held (hheld : store.find? node.name = some node) (changes : LabelChanges) :
    ∃ version, store.patch node changes = .ok (store.put (node.relabel changes version)) := by
  have hcurrent : isCurrent node node = true := by simp [isCurrent]
  refine ⟨some (toString (node.versionNumber + 1)), ?_⟩
  simp only [patch, hheld, hcurrent, if_true]
  rfl

theorem find?_put (store : Store) (node : Node) : (store.put node).find? node.name = some node := by
  simp [find?, put]

end Store

namespace Sync

variable {pushed : PushRequest → Except Failure Unit} {spec : Spec} {node : Node}
  {store store' : Store} {ms : List (Moment Cluster Store)} {result : Except Failure SyncOutcome}

/-- What the agent of this node is asked for. -/
def request (spec : Spec) (node : Node) : PushRequest where
  kubeVersion := spec.kubeVersion
  osVersion := spec.osVersion
  osImageUrl := spec.osImageUrl
  controlPlane := node.isControlPlane

/-- The only call was one write for this node, which gave it these labels. -/
def Relabels (node : Node) (labels : Labels) (store : Store) (events : List (Event Cluster))
    (store' : Store) : Prop :=
  ∃ changes version, events = [⟨.patch node changes, .ok ()⟩] ∧
    store' = store.put { node with labels := labels, resourceVersion := version }

/-- The labels of a node that got to the target. -/
def clearedLabels (spec : Spec) (node : Node) : Labels :=
  if spec.kubeVersion.isEmpty then node.labels.erase Label.selection
  else (node.labels.erase Label.selection).insert (Label.completed spec.kubeVersion)
    Label.completedValue

/-- What one sync of a node does. Its conditions compare the node with the target, by the versions
that `Node.needsUpgrade_iff` names. -/
structure Decides (pushed : PushRequest → Except Failure Unit) (spec : Spec) (node : Node)
    (store : Store) (events : List (Event Cluster)) (store' : Store)
    (result : Except Failure SyncOutcome) : Prop where
  push_iff : (∃ e ∈ events, e.isPush = true) ↔ node.Due spec
  write_iff : (∃ e ∈ events, e.isPatch = true) ↔ node.Strayed spec ∨ node.Arrived spec
  /-- The request is the only call, and its failure is the failure of the sync. -/
  pushes : node.Due spec →
    events = [⟨.push (request spec node), pushed (request spec node)⟩] ∧ store' = store ∧
      result = (pushed (request spec node)).map fun () => .pushed
  releases : node.Strayed spec → Relabels node (node.labels.erase Label.selection) store events store'
  clears : node.Arrived spec → Relabels node (clearedLabels spec node) store events store'
  rests : ¬ node.Due spec → ¬ node.Strayed spec → ¬ node.Arrived spec →
    events = [] ∧ store' = store
  pushed_iff : result = .ok .pushed ↔ node.Due spec ∧ pushed (request spec node) = .ok ()
  failed_iff : ∀ failure, result = .error failure ↔
    node.Due spec ∧ pushed (request spec node) = .error failure
  released_iff : result = .ok .released ↔ node.Strayed spec
  cleared_iff : result = .ok .cleared ↔ node.Arrived spec
  waiting_iff : result = .ok .waiting ↔ node.Unmarked spec true
  idle_iff : result = .ok .idle ↔ spec.isNoop = true ∨ node.Unmarked spec false
  /-- After a write the next sync of the node makes no call. -/
  settles : (∃ e ∈ events, e.isPatch = true) → ∃ reread,
    store'.find? node.name = some reread ∧ (run reread spec).run =
      .done (.ok (if reread.needsUpgrade spec then .waiting else .idle))

/-- A label update of the record that is stored is one write. -/
theorem course_update {plan : LabelPlan} {written : SyncOutcome}
    (hheld : store.find? node.name = some node) (hplan : (plan node).isEmpty = false)
    (h : Course (Store.alone pushed) store (do
      return if ← LabelUpdate.run node plan then written else .idle : Procedure SyncOutcome).run
      ms store' (.done result)) :
    ∃ version, ms.map Moment.event = [⟨.patch node (plan node), .ok ()⟩] ∧
      store' = store.put (node.relabel (plan node) version) ∧ result = .ok written := by
  obtain ⟨version, hpatch⟩ := Store.patch_of_held hheld (plan node)
  have hrun : (LabelUpdate.run node plan).run = _ :=
    LabelUpdate.attempt_succ plan node.name 4 node
  rw [hplan, if_neg Bool.false_ne_true] at hrun
  change Course _ _ ((LabelUpdate.run node plan).run >>= _) _ _ _ at h
  rw [hrun] at h
  obtain ⟨s, answer, t, rest, rfl, hserves, rfl, hrest⟩ := h.ask_done
  simp only [Store.alone, Store.Answers, hpatch] at hserves
  obtain ⟨rfl, rfl⟩ := hserves
  obtain ⟨rfl, hresult, rfl⟩ := hrest.done_done
  exact ⟨version, rfl, rfl, hresult.symm⟩

theorem course_due (hdue : node.Due spec)
    (h : Course (Store.alone pushed) store (run node spec).run ms store' (.done result)) :
    ms.map Moment.event = [⟨.push (request spec node), pushed (request spec node)⟩] ∧
      store' = store ∧ result = (pushed (request spec node)).map fun () => .pushed := by
  have hway : node.isUnderWay spec = true := by
    rw [Node.isUnderWay, Node.isSelectedFor_iff.mpr hdue.marker, hdue.behind, Bool.and_self]
  have hrequest : PushRequest.ofSpec spec node.isControlPlane = request spec node := rfl
  rw [run_underWay hdue.target hway, hrequest] at h
  obtain ⟨s, answer, t, rest, rfl, ⟨hanswer, rfl⟩, rfl, hrest⟩ := h.ask_done
  rw [← hanswer]
  cases answer with
  | ok =>
    obtain ⟨rfl, hresult, rfl⟩ := hrest.done_done
    exact ⟨rfl, rfl, hresult.symm⟩
  | error failure =>
    obtain ⟨rfl, hresult, rfl⟩ := hrest.done_done
    exact ⟨rfl, rfl, hresult.symm⟩

theorem labels_releasePlan (hstale : node.hasStaleSelection spec = true) (version : Option String) :
    node.relabel (releasePlan spec node) version =
      { node with labels := node.labels.erase Label.selection, resourceVersion := version } := by
  rw [releasePlan, if_pos hstale]
  rfl

theorem labels_clearPlan (hselected : node.isSelected = true) (version : Option String) :
    node.relabel (clearPlan spec node) version =
      { node with labels := clearedLabels spec node, resourceVersion := version } := by
  have hlabels : node.labels.apply (clearPlan spec node) = clearedLabels spec node := by
    have hne := Label.completed_ne_selection spec.kubeVersion
    refine LabelMap.ext_get? fun key => ?_
    rw [Labels.get?_apply, clearPlan, clearedLabels, hselected]
    cases spec.kubeVersion.isEmpty with
    | true => by_cases hkey : key = Label.selection <;> simp [hkey]
    | false =>
      by_cases hkey : key = Label.selection
      · simp [hkey, hne.symm]
      · by_cases hkey' : key = Label.completed spec.kubeVersion <;> simp [hkey, hkey']
  rw [Node.relabel, hlabels]

theorem course_strayed (hheld : store.find? node.name = some node) (hstrayed : node.Strayed spec)
    (h : Course (Store.alone pushed) store (run node spec).run ms store' (.done result)) :
    Relabels node (node.labels.erase Label.selection) store (ms.map Moment.event) store' ∧
      result = .ok .released := by
  have hstale := Node.hasStaleSelection_iff.mpr hstrayed.marker
  have hplan : (releasePlan spec node).isEmpty = false := by simp [releasePlan, hstale]
  simp only [run, hstrayed.target, hstale] at h
  obtain ⟨version, hevents, hafter, hresult⟩ := course_update hheld hplan h
  rw [labels_releasePlan hstale] at hafter
  exact ⟨⟨_, version, hevents, hafter⟩, hresult⟩

theorem course_arrived (hheld : store.find? node.name = some node) (harrived : node.Arrived spec)
    (h : Course (Store.alone pushed) store (run node spec).run ms store' (.done result)) :
    Relabels node (clearedLabels spec node) store (ms.map Moment.event) store' ∧
      result = .ok .cleared := by
  have hselected : node.isSelected = true := by
    have hget : node.labels.get? Label.selection = some spec.selectionValue := harrived.marker
    rw [Node.isSelected, LabelMap.contains, hget, Option.isSome_some]
  have hstale : node.hasStaleSelection spec = false := by
    simp [Node.hasStaleSelection, Node.isSelectedFor_iff.mpr harrived.marker]
  have hplan : (clearPlan spec node).isEmpty = false := by
    rw [isEmpty_clearPlan, hselected, Bool.not_true]
  simp only [run, harrived.target, hstale, harrived.current] at h
  obtain ⟨version, hevents, hafter, hresult⟩ := course_update hheld hplan h
  rw [labels_clearPlan hselected] at hafter
  exact ⟨⟨_, version, hevents, hafter⟩, hresult⟩

/-- Without a marker there is nothing to do. -/
theorem run_unmarked {behind : Bool} (hunmarked : node.Unmarked spec behind) :
    (run node spec).run = .done (.ok (if behind then .waiting else .idle)) := by
  have hnone : node.labels.get? Label.selection = none := hunmarked.marker
  have hselected : node.isSelected = false := by
    rw [Node.isSelected, LabelMap.contains, hnone, Option.isSome_none]
  have hfor : node.isSelectedFor spec = false := by simp [Node.isSelectedFor, hnone]
  have hstale : node.hasStaleSelection spec = false := by simp [Node.hasStaleSelection, hselected]
  have hempty : (clearPlan spec node).isEmpty = true := by
    rw [isEmpty_clearPlan, hselected, Bool.not_false]
  simp only [run, hunmarked.target, hstale, hunmarked.needs, hfor]
  cases behind with
  | true => rfl
  | false =>
    have hupdate : (LabelUpdate.run node (clearPlan spec)).run = .done (.ok false) := by
      rw [LabelUpdate.run, LabelUpdate.maxAttempts, LabelUpdate.attempt_succ, if_pos hempty]
    change (LabelUpdate.run node (clearPlan spec)).run >>= _ = _
    rw [hupdate]
    rfl

theorem run_noTarget (hnoop : spec.isNoop = true) : (run node spec).run = .done (.ok .idle) := by
  simp only [run, hnoop]
  rfl

theorem get?_clearedLabels (spec : Spec) (node : Node) :
    (clearedLabels spec node).get? Label.selection = none := by
  have hne := (Label.completed_ne_selection spec.kubeVersion).symm
  rw [clearedLabels]
  split <;> simp [hne]

theorem Relabels.settles {labels : Labels} {events : List (Event Cluster)}
    (h : Relabels node labels store events store') (hnoop : spec.isNoop = false)
    (hlabels : labels.get? Label.selection = none) :
    ∃ reread, store'.find? node.name = some reread ∧ (run reread spec).run =
      .done (.ok (if reread.needsUpgrade spec then .waiting else .idle)) := by
  obtain ⟨changes, version, -, rfl⟩ := h
  exact ⟨_, Store.find?_put store _, run_unmarked ⟨hnoop, hlabels, rfl⟩⟩

section Cases

/-! Each case excludes the others, which settles what is asked of them. -/

variable {events : List (Event Cluster)}

theorem decides_of_due (hdue : node.Due spec)
    (hevents : events = [⟨.push (request spec node), pushed (request spec node)⟩])
    (hstore : store' = store)
    (hresult : result = (pushed (request spec node)).map fun () => .pushed) :
    Decides pushed spec node store events store' result := by
  have hother := hdue.excludes
  subst hevents hstore hresult
  constructor <;> cases pushed (request spec node) <;>
    simp [hdue, hother, hdue.target, Event.isPush, Event.isPatch, Except.map]

theorem decides_of_strayed (hstrayed : node.Strayed spec)
    (hrelabels : Relabels node (node.labels.erase Label.selection) store events store')
    (hresult : result = .ok .released) : Decides pushed spec node store events store' result := by
  have hother := hstrayed.excludes
  have hsettles := hrelabels.settles hstrayed.target (by simp)
  have hrelabels' := hrelabels
  obtain ⟨changes, version, rfl, -⟩ := hrelabels'
  subst hresult
  constructor <;>
    simp [hstrayed, hother, hstrayed.target, hrelabels, hsettles, Event.isPush, Event.isPatch]

theorem decides_of_arrived (harrived : node.Arrived spec)
    (hrelabels : Relabels node (clearedLabels spec node) store events store')
    (hresult : result = .ok .cleared) : Decides pushed spec node store events store' result := by
  have hother := harrived.excludes
  have hsettles := hrelabels.settles harrived.target (get?_clearedLabels spec node)
  have hrelabels' := hrelabels
  obtain ⟨changes, version, rfl, -⟩ := hrelabels'
  subst hresult
  constructor <;>
    simp [harrived, hother, harrived.target, hrelabels, hsettles, Event.isPush, Event.isPatch]

theorem decides_of_unmarked {behind : Bool} (hunmarked : node.Unmarked spec behind)
    (hresult : result = .ok (if behind then .waiting else .idle)) :
    Decides pushed spec node store [] store result := by
  have hother := hunmarked.excludes
  subst hresult
  constructor <;> cases behind <;> simp [hother, hunmarked.target]

theorem decides_of_noTarget (hnoop : spec.isNoop = true) :
    Decides pushed spec node store [] store (.ok .idle) := by
  have hother : ¬ node.Due spec ∧ ¬ node.Strayed spec ∧ ¬ node.Arrived spec ∧
      ∀ behind, ¬ node.Unmarked spec behind := Node.excludes_of_noTarget hnoop
  constructor <;> simp [hother, hnoop]

end Cases

theorem decides_of_course (hheld : store.find? node.name = some node)
    (h : Course (Store.alone pushed) store (run node spec).run ms store' (.done result)) :
    Decides pushed spec node store (ms.map Moment.event) store' result := by
  cases hnoop : spec.isNoop with
  | true =>
    rw [run_noTarget hnoop] at h
    obtain ⟨rfl, rfl, rfl⟩ := h.done_done
    exact decides_of_noTarget hnoop
  | false =>
    rcases Node.due_or_strayed_or_arrived_or_unmarked hnoop node with
      hdue | hstrayed | harrived | ⟨behind, hunmarked⟩
    · obtain ⟨hevents, hstore, hresult⟩ := course_due hdue h
      exact decides_of_due hdue hevents hstore hresult
    · obtain ⟨hrelabels, hresult⟩ := course_strayed hheld hstrayed h
      exact decides_of_strayed hstrayed hrelabels hresult
    · obtain ⟨hrelabels, hresult⟩ := course_arrived hheld harrived h
      exact decides_of_arrived harrived hrelabels hresult
    · rw [run_unmarked hunmarked] at h
      obtain ⟨rfl, rfl, rfl⟩ := h.done_done
      exact decides_of_unmarked hunmarked rfl

/-- The sync of a node that the store holds comes to an end, and it acts on exactly what the marker
and the versions of the node ask for, whatever the agent answers. -/
theorem run_decides (pushed : PushRequest → Except Failure Unit) (spec : Spec) {node : Node}
    {store : Store} (hheld : store.find? node.name = some node) :
    (∃ ms store' result,
      Course (Store.alone pushed) store (run node spec).run ms store' (.done result)) ∧
    ∀ ms store' result,
      Course (Store.alone pushed) store (run node spec).run ms store' (.done result) →
        Decides pushed spec node store (ms.map Moment.event) store' result := by
  refine ⟨?_, fun ms store' result => decides_of_course hheld⟩
  obtain ⟨ms, store', result, hcourse, -⟩ :=
    Permits.of_answered (E := Store.alone pushed) (Store.exists_answers pushed) _ store
  exact ⟨ms, store', result, hcourse⟩

/-- A finished worker is cleared, and the next sync finds nothing to do. -/
theorem run_decides_finishedWorker : ∃ events store',
    Decides (fun _ => .ok ()) Fleet.sampleSpec finishedWorker (Store.ofList [finishedWorker]) events
      store' (.ok .cleared) := by
  have hheld : (Store.ofList [finishedWorker]).find? finishedWorker.name = some finishedWorker := by
    decide
  have harrived : finishedWorker.Arrived Fleet.sampleSpec := ⟨by decide, by decide, by decide⟩
  obtain ⟨⟨ms, store', result, hcourse⟩, hdecides⟩ :=
    run_decides (fun _ => .ok ()) Fleet.sampleSpec hheld
  have hresult := (hdecides ms store' result hcourse).cleared_iff.mpr harrived
  subst hresult
  exact ⟨_, store', hdecides ms store' _ hcourse⟩

end Sync

end NodeRollout
