import NodeRollout.Metrics
import NodeRollout.Proofs.ActiveUpgrade
import NodeRollout.Proofs.Outcome
import NodeRollout.Proofs.Tally

/-! The counters agree with what happened: what a pass adds to them is told from its other calls and
its outcome, and each step of the operator adds one to one of its results. -/
namespace NodeRollout

open Program

section Readings

variable {m : Metrics} {samples : List Sample} {role : Role}

namespace ByRole

theorem get?_set {α : Type} (m : ByRole α) (role other : Role) (value : α) :
    (m.set role value).get? other = if other = role then some value else m.get? other := by
  cases role <;> cases other <;> rfl

end ByRole

namespace Metrics

/-- The metrics after these calls. -/
def after (m : Metrics) (log : List (Event Cluster)) : Metrics := (Pass.samples log).foldl record m

def selected (m : Metrics) (role : Role) : Nat := (m.selections.get? role).getD 0

def timedOut (m : Metrics) (role : Role) : Nat := (m.timeouts.get? role).getD 0

/-- How many waits of this role are in the histogram. -/
def waited (m : Metrics) (role : Role) : Nat := ((m.waits.get? role).getD {}).count

def reconciled (m : Metrics) (result : String) : Nat := (m.reconciles.lookup result).getD 0

/-- A reading that grows with one kind of samples, by one with each of them. -/
theorem foldl_record (reading : Metrics → Nat) (p : Sample → Bool)
    (hstep : ∀ m sample, reading (record m sample) = reading m + (p sample).toNat) :
    reading (samples.foldl record m) = reading m + samples.countP p := by
  induction samples generalizing m with
  | nil => rfl
  | cons sample samples ih =>
    rw [List.foldl_cons, ih, hstep, List.countP_cons]
    cases p sample with
    | false => rfl
    | true =>
      rw [if_pos rfl, Bool.toNat_true]
      omega

theorem selected_record (m : Metrics) (sample : Sample) :
    (m.record sample).selected role = m.selected role + (sample == .selected role).toNat := by
  cases sample with
  | selected other =>
    rw [selected, record, countRole, ByRole.get?_set]
    by_cases hrole : role = other
    · simp [hrole, selected]
    · simp [hrole, Ne.symm hrole, selected]
  | reconciled | timedOut | waited => rfl

theorem timedOut_record (m : Metrics) (sample : Sample) :
    (m.record sample).timedOut role = m.timedOut role + (sample == .timedOut role).toNat := by
  cases sample with
  | timedOut other =>
    rw [timedOut, record, countRole, ByRole.get?_set]
    by_cases hrole : role = other
    · simp [hrole, timedOut]
    · simp [hrole, Ne.symm hrole, timedOut]
  | reconciled | selected | waited => rfl

theorem waited_record (m : Metrics) (sample : Sample) :
    (m.record sample).waited role = m.waited role + (sample.isWait role).toNat := by
  cases sample with
  | waited other elapsed =>
    rw [waited, record, observeWait, ByRole.get?_set]
    by_cases hrole : role = other
    · simp [hrole, waited, Sample.isWait, Histogram.observe]
    · simp [hrole, Ne.symm hrole, waited, Sample.isWait]
  | reconciled | selected | timedOut => rfl

theorem lookup_countResult (result other : String) (counts : List (String × Nat)) :
    (countResult result counts).lookup other =
      if other = result then some ((counts.lookup result).getD 0 + 1) else counts.lookup other := by
  induction counts with
  | nil =>
    by_cases hother : other = result
    · simp [countResult, hother]
    · have hne : (other == result) = false := beq_false_of_ne hother
      simp [countResult, List.lookup_cons, hne, hother]
  | cons entry counts ih =>
    obtain ⟨r, n⟩ := entry
    by_cases hother : other = result
    · subst hother
      by_cases hr : r = other
      · simp [countResult, hr]
      · have hne : (other == r) = false := beq_false_of_ne (Ne.symm hr)
        simpa [countResult, hr, List.lookup_cons, hne] using ih
    · have hne : (other == result) = false := beq_false_of_ne hother
      by_cases hr : r = result
      · simp [countResult, hr, List.lookup_cons, hne, hother]
      · rw [countResult, if_neg hr, List.lookup_cons, List.lookup_cons, ih, if_neg hother,
          if_neg hother, ← List.lookup_cons]

theorem reconciled_record (m : Metrics) (sample : Sample) (result : String) :
    (m.record sample).reconciled result =
      m.reconciled result + (sample == .reconciled result).toNat := by
  cases sample with
  | reconciled other =>
    rw [reconciled, record, lookup_countResult]
    by_cases hresult : result = other
    · simp [hresult, reconciled]
    · simp [hresult, Ne.symm hresult, reconciled]
  | selected | timedOut | waited => rfl

section After

variable {log : List (Event Cluster)}

theorem selected_after (m : Metrics) :
    (m.after log).selected role = m.selected role + (Pass.samples log).count (.selected role) :=
  foldl_record (·.selected role) (· == .selected role) selected_record

theorem timedOut_after (m : Metrics) :
    (m.after log).timedOut role = m.timedOut role + (Pass.samples log).count (.timedOut role) :=
  foldl_record (·.timedOut role) (· == .timedOut role) timedOut_record

theorem waited_after (m : Metrics) : (m.after log).waited role =
    m.waited role + (Pass.samples log).countP (Sample.isWait role) :=
  foldl_record (·.waited role) (Sample.isWait role) waited_record

theorem reconciled_after (m : Metrics) (result : String) : (m.after log).reconciled result =
    m.reconciled result + (Pass.samples log).count (.reconciled result) :=
  foldl_record (·.reconciled result) (· == .reconciled result) fun m sample =>
    reconciled_record m sample result

end After

end Metrics

end Readings

namespace Pass

variable {settings : Settings} {spec : Spec} {node : Node} {nodes : List Node} {name : String}
  {stuck : Option Node} {role : Role} {events rest log : List (Event Cluster)}

/-- Waits for several nodes: they are awaited in order, up to the one that got stuck. -/
structure TalliedWaits (spec : Spec) (nodes : List Node) (events : List (Event Cluster))
    (stuck : Option Node) : Prop where
  tally : ∃ reached, Tally spec events reached stuck ∧ reached ++ stuck.toList <+: nodes ∧
    (stuck = none → reached = nodes)
  passive : Passive events

theorem tallied_of_awaitAll (h : Runs (awaitAll settings spec nodes) events stuck) :
    TalliedWaits spec nodes events stuck := by
  induction nodes generalizing events with
  | nil =>
    cases h
    exact ⟨⟨[], .nil, List.prefix_rfl, fun _ => rfl⟩, List.forall_mem_nil _⟩
  | cons node rest ih =>
    obtain ⟨first, reached, last, hawait, hrest, rfl⟩ := runs_bind_iff.mp h
    have hfirst := tallied_of_await hawait
    cases reached with
    | false =>
      -- the nodes after the one that got stuck are not awaited
      cases hrest
      rw [List.append_nil]
      exact ⟨⟨[], hfirst.tally, ⟨rest, rfl⟩, nofun⟩, hfirst.passive⟩
    | true =>
      obtain ⟨⟨reached, htally, hprefix, hall⟩, hpassive⟩ := ih hrest
      have hquiet : Breaks first last := .inl fun e he => (hfirst.passive e he).1
      refine ⟨⟨node :: reached, hfirst.tally.append htally hquiet, ?_, ?_⟩, ?_⟩
      · exact (List.prefix_cons_inj node).mpr hprefix
      · intro hnone
        rw [hall hnone]
      · exact List.forall_mem_append.mpr ⟨hfirst.passive, hpassive⟩

/-- A node that is marked, and the wait for it. Nothing is read in between. -/
theorem tally_of_selected {r : Except Failure Unit} {chosen awaited : List (Event Cluster)}
    {reached : Bool} (hselect : Runs (select spec node).run chosen r)
    (hawait : Runs (await settings spec node) awaited reached) :
    Tally spec (chosen ++ awaited) (if reached then [node] else [])
      (if reached then none else some node) := by
  have hawaited := tallied_of_await hawait
  have hcalm := hawaited.calm []
  rw [List.append_nil] at hcalm
  exact (tally_of_select hselect).append hawaited.tally (.inr hcalm)

theorem examined_of_select {r : Except Failure Unit} (h : Runs (select spec node).run events r)
    (hrest : Calm rest) : examined (events ++ rest) = examined rest := by
  obtain ⟨update, result, hupdate, rfl⟩ := update_of_select h
  have hcounts : Calm (countsOf node result ++ rest) ∧
      examined (countsOf node result ++ rest) = examined rest := by
    unfold countsOf
    split
    · exact ⟨by simp [Calm, Event.touches], examined_cons rfl⟩
    · exact ⟨hrest, rfl⟩
  rw [List.append_assoc, (written_of_attempt hupdate).2.2 _ hcounts.1, hcounts.2]

/-- What a batch counts. The nodes that it awaits are those that it read behind the target. -/
def TalliedBatch (spec : Spec) (events : List (Event Cluster))
    (result : Except Failure (List String × Option String)) : Prop :=
  ∃ reached stuck, Tally spec events reached stuck ∧
    reached ++ stuck.toList <+: (examined events).filter (·.needsUpgrade spec) ∧
    stuck.map Node.name = batchStuck? result ∧
    ∀ selected, result = .ok (selected, none) → selected.length = reached.length

namespace TalliedBatch

variable {listed fresh : Node} {chosen awaited batch : List (Event Cluster)}

/-- A part without a wait. -/
theorem of_quick {result : Except Failure (List String × Option String)}
    (h : Tally spec events [] none) (hstuck : batchStuck? result = none)
    (hnone : ∀ selected, result = .ok (selected, none) → selected = []) :
    TalliedBatch spec events result := by
  refine ⟨[], none, h, List.nil_prefix, hstuck.symm, fun selected hselected => ?_⟩
  rw [hnone selected hselected]
  rfl

theorem read (hneeds : fresh.needsUpgrade spec = true) :
    (examined (⟨.get listed.name, .ok fresh⟩ :: events)).filter (·.needsUpgrade spec) =
      fresh :: (examined events).filter (·.needsUpgrade spec) := by
  have hread : (⟨.get listed.name, .ok fresh⟩ : Event Cluster).read? = some fresh := rfl
  rw [examined_cons rfl, hread, Option.toList_some, List.singleton_append,
    List.filter_cons_of_pos (by exact hneeds)]

theorem missed (hneeds : fresh.needsUpgrade spec = true)
    (hselect : Runs (select spec fresh).run chosen (.ok ()))
    (hawait : Runs (await settings spec fresh) awaited false) :
    TalliedBatch spec (⟨.get listed.name, .ok fresh⟩ :: (chosen ++ awaited))
      (.ok ([fresh.name], some fresh.name)) := by
  refine ⟨[], some fresh, (tally_of_selected hselect hawait).cons (get_ne_now _) rfl rfl, ?_, rfl,
    nofun⟩
  rw [read hneeds]
  exact List.prefix_append [fresh] _

theorem arrived {result : Except Failure (List String × Option String)}
    (hneeds : fresh.needsUpgrade spec = true)
    (hselect : Runs (select spec fresh).run chosen (.ok ()))
    (hawait : Runs (await settings spec fresh) awaited true) (h : TalliedBatch spec batch result) :
    TalliedBatch spec (⟨.get listed.name, .ok fresh⟩ :: (chosen ++ (awaited ++ batch)))
      (result.map fun r => (fresh.name :: r.1, r.2)) := by
  obtain ⟨reached, stuck, htally, hprefix, hstuck, hlength⟩ := h
  have hawaited := tallied_of_await hawait
  -- the wait separates the update from the rest of the batch, so that none of them runs on
  have hcalm : Calm (awaited ++ batch) := hawaited.calm batch
  have hquiet : Breaks awaited batch := .inl fun e he => (hawaited.passive e he).1
  have hboth : Tally spec (awaited ++ batch) (fresh :: reached) stuck :=
    hawaited.tally.append htally hquiet
  have hwhole : Tally spec (chosen ++ (awaited ++ batch)) (fresh :: reached) stuck :=
    (tally_of_select hselect).append hboth (.inr hcalm)
  refine ⟨fresh :: reached, stuck, hwhole.cons (get_ne_now _) rfl rfl, ?_, ?_, ?_⟩
  · rw [read hneeds, examined_of_select hselect hcalm, hawaited.passive.examined_append]
    exact (List.prefix_cons_inj fresh).mpr hprefix
  · rw [hstuck]
    cases result <;> rfl
  · intro selected hselected
    match result with
    | .ok (names, none) =>
      cases hselected
      rw [List.length_cons, List.length_cons, hlength names rfl]

end TalliedBatch

theorem tallied_of_selectBatch {room : Nat}
    {result : Except Failure (List String × Option String)}
    (h : Runs (selectBatch settings spec room nodes).run events result) :
    TalliedBatch spec events result := by
  have hempty : TalliedBatch spec [] (.ok ([], none)) := by
    refine .of_quick .nil rfl ?_
    rintro selected ⟨⟩
    rfl
  -- the nodes and the room for them get fewer together; either may end the batch
  induction nodes generalizing room events result with
  | nil =>
    have hdone : selectBatch settings spec room [] = return ([], none) := by
      cases room <;> rfl
    rw [hdone] at h
    cases h
    exact hempty
  | cons listed rest ih =>
    cases room with
    | zero =>
      cases h
      exact hempty
    | succ room =>
      cases batchStep_of_runs h with
      | unread => exact .of_quick (Tally.nil.cons (get_ne_now _) rfl rfl) rfl nofun
      | current hmatch =>
        refine .of_quick (Tally.nil.cons (get_ne_now _) rfl rfl) rfl ?_
        rintro selected ⟨⟩
        rfl
      | unselected hneeds hselect =>
        exact .of_quick ((tally_of_select hselect).cons (get_ne_now _) rfl rfl) rfl nofun
      | stuck hneeds hselect hawait => exact .missed hneeds hselect hawait
      | arrived hneeds hselect hawait hbatch => exact .arrived hneeds hselect hawait (ih hbatch)

/-- The control-plane node that a pass awaits: the one under way, or else the first candidate. -/
def controlPlane? (spec : Spec) (nodes : List Node) : Option Node :=
  nodes.find? (·.isUnderWay spec) <|> nodes.find? (·.isCandidate spec)

/-- The records of the nodes that a pass may await, in this order: one of the control plane, or else
the workers under way, and after them those that were read behind the target. -/
def awaitable (spec : Spec) (log : List (Event Cluster)) : List Node :=
  match controlPlane? spec ((listed log).filter (·.isControlPlane)) with
  | some node => [node]
  | none => ((listed log).filter (!·.isControlPlane)).filter (·.isUnderWay spec) ++
      (examined log).filter (·.needsUpgrade spec)

/-- What a part of the pass that ends it counts, if these are the nodes to await. -/
def TalliedPass (spec : Spec) (order : List Node) (events : List (Event Cluster))
    (result : Except Failure PassOutcome) : Prop :=
  ∃ reached stuck, Tally spec events reached stuck ∧ reached ++ stuck.toList <+: order ∧
    stuck.map Node.name = stalled? result

theorem tallied_of_workerStages {result : Except Failure PassOutcome}
    (h : WorkerStages settings spec nodes events result) :
    TalliedPass spec (nodes.filter (·.isUnderWay spec) ++
        (examined events).filter (·.needsUpgrade spec)) events result ∧
      ∀ selected, result = .ok (.advanced selected) → arrivals spec events =
        (nodes.filter (·.isUnderWay spec)).length + selected.length := by
  cases h with
  | @stuck awaited node hawait =>
    obtain ⟨⟨reached, htally, hprefix, -⟩, -⟩ := tallied_of_awaitAll hawait
    exact ⟨⟨reached, some node, htally, hprefix.trans (List.prefix_append _ _), rfl⟩, nofun⟩
  | @batch awaited batch result hawait hrun =>
    obtain ⟨⟨reached, htally, -, hall⟩, hpassive⟩ := tallied_of_awaitAll hawait
    -- the batch is begun only when all the workers under way have arrived
    obtain rfl := hall rfl
    obtain ⟨reached, stuck, htally', hprefix, hstuck, hlength⟩ := tallied_of_selectBatch hrun
    have hboth := htally.append htally' (.inl fun e he => (hpassive e he).1)
    rw [hpassive.examined_append]
    constructor
    · refine ⟨_, stuck, hboth, ?_, ?_⟩
      · rw [List.append_assoc]
        exact (List.prefix_append_right_inj _).mpr hprefix
      · rw [hstuck]
        match result with
        | .error failure => rfl
        | .ok (_, some name) => rfl
        | .ok (selected, none) =>
          simp only [Except.map]
          split <;> rfl
    · intro selected hselected
      rw [hboth.arrived, List.length_append]
      match result with
      | .ok (names, none) =>
        simp only [Except.map] at hselected
        split at hselected
        · cases hselected
        · cases hselected
          rw [hlength selected rfl]

/-- One node was awaited, and the pass ends with that. -/
theorem TalliedPass.of_one {reached : Bool} (names : List String)
    (h : Tally spec events (if reached then [node] else [])
      (if reached then none else some node)) :
    TalliedPass spec [node] events
      (.ok (if reached then .advanced names else .stalled node.name)) := by
  refine ⟨_, _, h, ?_, ?_⟩
  · cases reached <;> exact List.prefix_rfl
  · cases reached <;> rfl

theorem tallied_of_controlPlaneStages {result : Except Failure PassOutcome}
    (h : ControlPlaneStages settings spec nodes events (result.map some)) :
    TalliedPass spec (controlPlane? spec nodes).toList events result := by
  generalize hresult : result.map some = tier at h
  cases h with
  | underWay hway hawait =>
    obtain rfl := eq_ok_of_map_some hresult
    rw [controlPlane?, hway]
    exact .of_one [] (tallied_of_await hawait).tally
  | unselected hway hcandidate hselect =>
    cases result with
    | ok => cases hresult
    | error failure => exact ⟨[], none, tally_of_select hselect, List.nil_prefix, rfl⟩
  | @selected node _ _ _ hway hcandidate hselect hawait =>
    obtain rfl := eq_ok_of_map_some hresult
    rw [controlPlane?, hway, hcandidate]
    exact .of_one [node.name] (tally_of_selected hselect hawait)
  | idle => cases result <;> cases hresult

/-- The counters after a pass, by its other calls and its outcome. -/
structure Counted (spec : Spec) (log : List (Event Cluster))
    (result : Except Failure PassOutcome) (m m' : Metrics) : Prop where
  /-- Each update that wrote is counted under the role of the record that it was begun with. -/
  selected : ∀ role, m'.selected role = m.selected role + (updates log).countP (marks role)
  /-- Every write that was carried out is counted. -/
  written : m'.selected .controlPlane + m'.selected .worker =
    m.selected .controlPlane + m.selected .worker + (selections log).length
  /-- The node that missed its deadline is the one after those that were awaited with success. -/
  stalled : ∀ name, result = .ok (.stalled name) →
    ∃ node, (awaitable spec log)[arrivals spec log]? = some node ∧ node.name = name ∧
      ∀ role, m'.timedOut role = m.timedOut role + if node.role = role then 1 else 0
  not_stalled : (∀ name, result ≠ .ok (.stalled name)) →
    ∀ role, m'.timedOut role = m.timedOut role
  /-- Each wait that ended with its node at the target is counted under the role of that node. -/
  waited : ∀ role, m'.waited role = m.waited role +
    ((awaitable spec log).take (arrivals spec log)).countP (·.role == role)
  observed : m'.waited .controlPlane + m'.waited .worker =
    m.waited .controlPlane + m.waited .worker + arrivals spec log
  /-- Workers advance when no listed control-plane node is behind. -/
  advanced : ∀ selected, result = .ok (.advanced selected) →
    (∀ node ∈ listed log, node.isControlPlane = true → node.needsUpgrade spec = false) →
    arrivals spec log = ((listed log).filter fun node =>
      !node.isControlPlane && node.isUnderWay spec).length + selected.length
  reconciled : ∀ label, m'.reconciled label = m.reconciled label

section Whole

variable {result : Except Failure PassOutcome}

theorem countP_role_add (nodes : List Node) :
    nodes.countP (·.role == .controlPlane) + nodes.countP (·.role == .worker) = nodes.length := by
  induction nodes with
  | nil => rfl
  | cons node nodes ih =>
    rw [List.countP_cons, List.countP_cons, List.length_cons]
    cases node.role <;> simp <;> omega

theorem counted_of_tallied (m : Metrics) (h : TalliedPass spec (awaitable spec log) log result)
    (hadvanced : ∀ selected, result = .ok (.advanced selected) →
      (∀ node ∈ listed log, node.isControlPlane = true → node.needsUpgrade spec = false) →
      arrivals spec log = ((listed log).filter fun node =>
        !node.isControlPlane && node.isUnderWay spec).length + selected.length) :
    Counted spec log result m (m.after log) := by
  obtain ⟨reached, stuck, htally, hprefix, hstuck⟩ := h
  have htake : (awaitable spec log).take (arrivals spec log) = reached := by
    obtain ⟨rest, hrest⟩ := hprefix
    rw [htally.arrived, ← hrest, List.append_assoc, List.take_left]
  exact {
    selected := fun role => by rw [m.selected_after, htally.selected]
    written := by
      have hwritten := htally.written
      rw [m.selected_after, m.selected_after]
      omega
    stalled := by
      rintro name rfl
      obtain ⟨node, rfl, hname⟩ := Option.map_eq_some_iff.mp hstuck
      obtain ⟨rest, hrest⟩ := hprefix
      refine ⟨node, ?_, hname, fun role => ?_⟩
      · rw [htally.arrived, ← hrest, List.append_assoc, List.getElem?_append_right (Nat.le_refl _),
          Nat.sub_self]
        rfl
      · rw [m.timedOut_after, htally.timedOut]
        simp [List.countP_singleton]
    not_stalled := by
      intro hnot role
      have hnone : stuck = none := by
        rw [← Option.map_eq_none_iff, hstuck, Option.eq_none_iff_forall_ne_some]
        exact fun name hname => hnot name (stalled?_eq_some.mp hname)
      rw [m.timedOut_after, htally.timedOut, hnone]
      rfl
    waited := fun role => by rw [m.waited_after, htally.waited, htake]
    observed := by
      have hroles := countP_role_add reached
      have harrived := htally.arrived
      rw [m.waited_after, m.waited_after, htally.waited, htally.waited]
      omega
    advanced := hadvanced
    reconciled := fun label => by rw [m.reconciled_after, htally.unreported, Nat.add_zero] }

theorem counted_of_listStages (m : Metrics) (h : ListStages settings spec nodes events result) :
    Counted spec (⟨.list, .ok nodes⟩ :: events) result m
      (m.after (⟨.list, .ok nodes⟩ :: events)) := by
  have hexamined : examined (⟨.list, .ok nodes⟩ :: events) = examined events := examined_cons rfl
  have harrivals : arrivals spec (⟨.list, .ok nodes⟩ :: events) = arrivals spec events := by
    rw [arrivals, waits_cons (list_ne_now _), arrivals]
  -- the list of the nodes belongs to no wait and no update, and is not counted
  have hwhole : ∀ {order}, TalliedPass spec order events result →
      order <+: awaitable spec (⟨.list, .ok nodes⟩ :: events) →
      TalliedPass spec (awaitable spec (⟨.list, .ok nodes⟩ :: events))
        (⟨.list, .ok nodes⟩ :: events) result := by
    rintro order ⟨reached, stuck, htally, hprefix, hstuck⟩ horder
    exact ⟨reached, stuck, htally.cons (list_ne_now _) rfl rfl, hprefix.trans horder, hstuck⟩
  cases h with
  | steady =>
    have hnothing : TalliedPass spec [] [] (.ok .steady) := ⟨[], none, .nil, List.prefix_rfl, rfl⟩
    exact counted_of_tallied m (hwhole hnothing List.nil_prefix) fun _ hresult => by cases hresult
  | controlPlane tier =>
    refine counted_of_tallied m (hwhole (tallied_of_controlPlaneStages tier) ?_) ?_
    · have hlisted : listed (⟨.list, .ok nodes⟩ :: events) = nodes := rfl
      rw [awaitable, hlisted]
      cases controlPlane? spec (nodes.filter (·.isControlPlane)) with
      | none => exact List.nil_prefix
      | some node => exact List.prefix_rfl
    · intro selected _ hcurrent
      obtain ⟨node, hnode, hneeds⟩ := tier.behind
      obtain ⟨hlisted, hrole⟩ := List.mem_filter.mp hnode
      exact absurd (hcurrent node hlisted hrole) (by simp [hneeds])
  | worker tier workers =>
    obtain ⟨htallied, hlength⟩ := tallied_of_workerStages workers
    have hnone : controlPlane? spec (nodes.filter (·.isControlPlane)) = none := by
      rw [controlPlane?, tier.find?_eq_none.1, tier.find?_eq_none.2]
      rfl
    have hlisted : listed (⟨.list, .ok nodes⟩ :: events) = nodes := rfl
    refine counted_of_tallied m (hwhole htallied ?_) ?_
    · have horder : awaitable spec (⟨.list, .ok nodes⟩ :: events) =
          (nodes.filter (!·.isControlPlane)).filter (·.isUnderWay spec) ++
            (examined events).filter (·.needsUpgrade spec) := by
        rw [awaitable, hlisted, hnone, hexamined]
      exact horder ▸ List.prefix_rfl
    · intro selected hresult _
      have hfilter : nodes.filter (fun node => !node.isControlPlane && node.isUnderWay spec) =
          (nodes.filter (!·.isControlPlane)).filter (·.isUnderWay spec) := by
        rw [List.filter_filter]
        exact List.filter_congr fun node _ => Bool.and_comm ..
      rw [harrivals, hlength selected hresult, hlisted, hfilter]

theorem run_counted (settings : Settings) (spec : Spec) (m : Metrics)
    (hrun : Runs (run settings spec).run log result) :
    Counted spec log result m (m.after log) := by
  cases hnoop : spec.isNoop with
  | true =>
    have hdone : (run settings spec).run = .done (.ok .noTarget) := by
      simp only [run, hnoop]
      rfl
    rw [hdone] at hrun
    cases hrun
    exact counted_of_tallied m ⟨[], none, .nil, List.nil_prefix, rfl⟩
      fun _ hresult => by cases hresult
  | false =>
    rw [run_eq hnoop] at hrun
    cases hrun with
    | ask answer hrest =>
      cases answer with
      | error failure =>
        cases hrest
        have htally : Tally spec [⟨.list, .error failure⟩] [] none :=
          Tally.nil.cons (list_ne_now _) rfl rfl
        exact counted_of_tallied m ⟨[], none, htally, List.nil_prefix, rfl⟩
          fun _ hresult => by cases hresult
      | ok nodes => exact counted_of_listStages m (listStages_of_runs hrest)

end Whole

end Pass

namespace Operator

variable {settings : Settings} {known : List Upgrade} {upgrade : Upgrade}
  {events : List (Event Cluster)} {requeue : Requeue}

/-- One step of the operator, with what follows a failure. -/
def step (settings : Settings) (known : List Upgrade) (upgrade : Upgrade) :
    Program Cluster Requeue := do
  match ← (reconcile settings known upgrade).run with
  | .ok requeue => return requeue
  | .error failure => onFailure failure

/-- The result under which a step is counted that runs a pass. -/
def resultLabel : Except Failure PassOutcome → String
  | .ok outcome => outcome.label
  | .error _ => "error"

/-- The calls of a step: those of a pass, unless the upgrade is ignored, and the count of its
result. -/
theorem calls_of_step (h : Runs (step settings known upgrade) events requeue) :
    events = ignoring ∨ ∃ passing outcome,
      Runs (Pass.run settings upgrade.spec).run passing outcome ∧
      events = passing ++ [⟨.count (.reconciled (resultLabel outcome)), ()⟩] := by
  obtain ⟨first, result, rest, hstep, hrest, rfl⟩ := runs_bind_iff.mp h
  rcases ignoring_or_runsPass hstep with ⟨rfl, rfl⟩ | ⟨passing, outcome, hpass, rfl, rfl⟩
  · cases hrest
    exact .inl rfl
  · refine .inr ⟨passing, outcome, hpass, ?_⟩
    cases outcome with
    | ok outcome =>
      cases hrest
      exact List.append_nil _
    | error failure =>
      cases hrest with
      | ask answer hrest =>
        cases hrest
        rw [counted, List.append_nil]
        rfl

/-- One counter of results grew, by one. -/
def Counts (label : String) (m m' : Metrics) : Prop :=
  ∀ other, m'.reconciled other = m.reconciled other + if other = label then 1 else 0

theorem counts_after {passing : List (Event Cluster)} {label : String} (m : Metrics)
    (h : ∀ other, (m.after passing).reconciled other = m.reconciled other) :
    Counts label m (m.after (passing ++ [⟨.count (.reconciled label), ()⟩])) := by
  intro other
  have hpassing := h other
  rw [m.reconciled_after] at hpassing ⊢
  have hlast : Pass.samples [⟨.count (.reconciled label), ()⟩] = [.reconciled label] := rfl
  rw [Pass.samples_append, List.count_append, hlast, List.count_singleton]
  by_cases hother : other = label
  · simp [hother] at hpassing ⊢
    omega
  · simp [hother, Ne.symm hother] at hpassing ⊢
    omega

end Operator

namespace Metrics

/-- What a pass counts agrees with its other calls and its outcome, and a step of the operator
counts one result, once: that of the pass it makes, behind the calls of that pass, or that it made
none. So it is whatever the calls are answered. -/
theorem counters_agree (m : Metrics) :
    (∀ settings spec log result, Runs (Pass.run settings spec).run log result →
      Pass.Counted spec log result m (m.after log)) ∧
    ∀ settings known upgrade events requeue,
      Runs (Operator.step settings known upgrade) events requeue →
      ∃ label, Operator.Counts label m (m.after events) ∧
        (events = Operator.ignoring ∧ label = "ignored" ∨ ∃ passing outcome,
          Runs (Pass.run settings upgrade.spec).run passing outcome ∧
            events = passing ++ [⟨.count (.reconciled label), ()⟩] ∧
            label = Operator.resultLabel outcome) := by
  refine ⟨fun settings spec log result hrun => Pass.run_counted settings spec m hrun, ?_⟩
  intro settings known upgrade events requeue hrun
  rcases Operator.calls_of_step hrun with rfl | ⟨passing, outcome, hpass, rfl⟩
  · have hnothing : ∀ other, (m.after []).reconciled other = m.reconciled other := fun _ => rfl
    exact ⟨"ignored", Operator.counts_after m hnothing, .inl ⟨rfl, rfl⟩⟩
  · have hquiet := (Pass.run_counted settings upgrade.spec m hpass).reconciled
    exact ⟨_, Operator.counts_after m hquiet, .inr ⟨passing, outcome, hpass, rfl, rfl⟩⟩

theorem counters_agree_batch :
    Pass.Counted Fleet.sampleSpec Pass.batchLog (.ok (.stalled "w2")) {}
        (({} : Metrics).after Pass.batchLog) ∧
      (({} : Metrics).after Pass.batchLog).selected .worker = 2 ∧
      (({} : Metrics).after Pass.batchLog).timedOut .worker = 1 ∧
      (({} : Metrics).after Pass.batchLog).waited .worker = 1 := by
  refine ⟨(counters_agree {}).1 Pass.shortWaits _ _ _ Pass.runs_batchLog, rfl, rfl, rfl⟩

end Metrics

end NodeRollout
