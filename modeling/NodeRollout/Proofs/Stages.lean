import NodeRollout.Proofs.Transcript

/-! The stages of a pass, taken apart. A run of a stage is one of a few, and each of them is a run
of the stages that it is made of, with its calls and its result. -/
namespace NodeRollout

open Program

namespace LabelUpdate

variable {plan : LabelPlan} {name : String} {n : Nat} {node : Node} {events : List (Event Cluster)}
  {r : Except Failure Bool}

/-- What comes of the next attempt: the write is not needed, or it is carried out, or refused. After
a conflict the node is read, and the attempts go on with that record. -/
inductive Attempted (plan : LabelPlan) (name : String) (n : Nat) (node : Node) :
    List (Event Cluster) → Except Failure Bool → Prop where
  | needless (hplan : (plan node).isEmpty = true) : Attempted plan name n node [] (.ok false)
  | written (hplan : (plan node).isEmpty = false) :
      Attempted plan name n node [⟨.patch node (plan node), .ok ()⟩] (.ok true)
  | refused {failure : Failure} (hplan : (plan node).isEmpty = false)
      (hfailure : ∀ other, failure ≠ .conflict other) :
      Attempted plan name n node [⟨.patch node (plan node), .error failure⟩] (.error failure)
  | unread {other : String} {failure : Failure} (hplan : (plan node).isEmpty = false) :
      Attempted plan name n node
        [⟨.patch node (plan node), .error (.conflict other)⟩, ⟨.get name, .error failure⟩]
        (.error failure)
  | again {other : String} {current : Node} {events : List (Event Cluster)}
      {r : Except Failure Bool} (hplan : (plan node).isEmpty = false)
      (rest : Runs (attempt plan name n current).run events r) :
      Attempted plan name n node (⟨.patch node (plan node), .error (.conflict other)⟩ ::
        ⟨.get name, .ok current⟩ :: events) r

theorem attempted_of_runs (h : Runs (attempt plan name (n + 1) node).run events r) :
    Attempted plan name n node events r := by
  rw [attempt_succ] at h
  split at h
  next hplan =>
    cases h
    exact .needless hplan
  next hplan =>
    have hwrites : (plan node).isEmpty = false := Bool.not_eq_true _ ▸ hplan
    cases h with
    | ask answer hrest =>
      match answer with
      | .ok () =>
        cases hrest
        exact .written hwrites
      | .error (.conflict _) =>
        cases hrest with
        | ask answer hrest =>
          cases answer with
          | error failure =>
            cases hrest
            exact .unread hwrites
          | ok current => exact .again hwrites hrest
      | .error (.kube _) | .error (.nodeNotFound _) | .error (.selectionTimeout ..)
      | .error (.rpcUnavailable ..) | .error (.remote _) | .error (.protocol _)
      | .error (.commandFailed ..) | .error (.io _) =>
        cases hrest
        exact .refused hwrites nofun

end LabelUpdate

section Waiting

variable {settings : Settings} {spec : Spec} {name : String} {events : List (Event Cluster)}

/-- With a schedule a wait is a look at the clock and a poll. -/
theorem Wait.polls_of_run (hinterval : settings.pollInterval ≠ 0) {elapsed : Option Nat}
    (h : Runs (Wait.run settings name spec) events elapsed) :
    ∃ t polling ended, events = ⟨.now, t⟩ :: polling ∧ elapsed = ended.map (· - t) ∧
      Runs (Wait.poll name spec settings.pollInterval (t + settings.completionTimeout) t)
        polling ended := by
  rw [Wait.run, if_neg hinterval] at h
  cases h with
  | @ask _ _ events _ t hrest =>
    change Runs (Wait.poll name spec settings.pollInterval (t + settings.completionTimeout) t >>= _)
      events elapsed at hrest
    obtain ⟨polling, ended, rest, hpoll, hdone, rfl⟩ := runs_bind_iff.mp hrest
    cases hdone
    rw [List.append_nil]
    exact ⟨t, polling, ended, rfl, rfl, hpoll⟩

end Waiting

namespace Pass

variable {settings : Settings} {spec : Spec} {node : Node} {nodes : List Node}
  {events : List (Event Cluster)}

/-- What is counted when a wait has ended. -/
def ending (node : Node) : Option Nat → Sample
  | some elapsed => .waited node.role elapsed
  | none => .timedOut node.role

theorem waits_of_await {reached : Bool} (h : Runs (await settings spec node) events reached) :
    ∃ waiting elapsed, Runs (Wait.run settings node.name spec) waiting elapsed ∧
      events = waiting ++ [⟨.count (ending node elapsed), ()⟩] ∧ reached = elapsed.isSome := by
  obtain ⟨waiting, elapsed, rest, hwait, hrest, rfl⟩ := runs_bind_iff.mp h
  refine ⟨waiting, elapsed, hwait, ?_⟩
  cases elapsed <;>
  · cases hrest with
    | ask answer hrest =>
      cases hrest
      exact ⟨rfl, rfl⟩

theorem awaits_of_awaitLast {selected : List String} {outcome : PassOutcome}
    (h : Runs (awaitLast settings spec node selected) events outcome) :
    ∃ reached, Runs (await settings spec node) events reached ∧
      outcome = if reached then .advanced selected else .stalled node.name := by
  obtain ⟨first, reached, rest, hawait, hrest, rfl⟩ := runs_bind_iff.mp h
  refine ⟨reached, ?_⟩
  cases reached <;>
  · cases hrest
    rw [List.append_nil]
    exact ⟨hawait, rfl⟩

/-- What a batch with room does from the next listed worker on. -/
inductive BatchStep (settings : Settings) (spec : Spec) (room : Nat) (listed : Node)
    (rest : List Node) :
    List (Event Cluster) → Except Failure (List String × Option String) → Prop where
  | unread {failure : Failure} :
      BatchStep settings spec room listed rest [⟨.get listed.name, .error failure⟩] (.error failure)
  /-- The listed record was out of date, and the batch ends with it. -/
  | current {fresh : Node} (hmatch : fresh.needsUpgrade spec = false) :
      BatchStep settings spec room listed rest [⟨.get listed.name, .ok fresh⟩] (.ok ([], none))
  | unselected {fresh : Node} {chosen : List (Event Cluster)} {failure : Failure}
      (hneeds : fresh.needsUpgrade spec = true)
      (select : Runs (select spec fresh).run chosen (.error failure)) :
      BatchStep settings spec room listed rest (⟨.get listed.name, .ok fresh⟩ :: chosen)
        (.error failure)
  | stuck {fresh : Node} {chosen awaited : List (Event Cluster)}
      (hneeds : fresh.needsUpgrade spec = true)
      (select : Runs (select spec fresh).run chosen (.ok ()))
      (await : Runs (await settings spec fresh) awaited false) :
      BatchStep settings spec room listed rest
        (⟨.get listed.name, .ok fresh⟩ :: (chosen ++ awaited)) (.ok ([fresh.name], some fresh.name))
  | arrived {fresh : Node} {chosen awaited batch : List (Event Cluster)}
      {result : Except Failure (List String × Option String)}
      (hneeds : fresh.needsUpgrade spec = true)
      (select : Runs (select spec fresh).run chosen (.ok ()))
      (await : Runs (await settings spec fresh) awaited true)
      (run : Runs (selectBatch settings spec room rest).run batch result) :
      BatchStep settings spec room listed rest
        (⟨.get listed.name, .ok fresh⟩ :: (chosen ++ (awaited ++ batch)))
        (result.map fun r => (fresh.name :: r.1, r.2))

theorem batchStep_of_runs {room : Nat} {listed : Node} {rest : List Node}
    {result : Except Failure (List String × Option String)}
    (h : Runs (selectBatch settings spec (room + 1) (listed :: rest)).run events result) :
    BatchStep settings spec room listed rest events result := by
  rw [selectBatch] at h
  rcases runs_attempt_iff.mp h with ⟨failure, hget, rfl⟩ | ⟨first, fresh, last, hget, hrest, rfl⟩
  · cases hget with
    | ask answer hget =>
      cases hget
      exact .unread
  · cases hget with
    | ask answer hget =>
      cases hget
      split at hrest
      next hmatch =>
        cases hrest
        exact .current (by simpa using hmatch)
      next hbehind =>
        have hneeds : fresh.needsUpgrade spec = true := by simpa using hbehind
        rcases runs_attempt_iff.mp hrest with
          ⟨failure, hselect, rfl⟩ | ⟨chosen, _, last, hselect, hnext, rfl⟩
        · exact .unselected hneeds hselect
        · obtain ⟨awaited, reached, last, hawait, hlast, rfl⟩ := runs_lift_iff.mp hnext
          rw [List.singleton_append]
          cases reached with
          | false =>
            cases hlast
            rw [List.append_nil]
            exact .stuck hneeds hselect hawait
          | true =>
            -- a failure further on is the result of the whole batch
            rcases runs_attempt_iff.mp hlast with
              ⟨failure, hbatch, rfl⟩ | ⟨batch, r, last, hbatch, hdone, rfl⟩
            · exact .arrived hneeds hselect hawait hbatch
            · cases hdone
              rw [List.append_nil]
              exact .arrived hneeds hselect hawait hbatch

/-- What the worker tier does: it awaits the workers under way, and then runs a batch. -/
inductive WorkerStages (settings : Settings) (spec : Spec) (nodes : List Node) :
    List (Event Cluster) → Except Failure PassOutcome → Prop where
  | stuck {awaited : List (Event Cluster)} {node : Node}
      (await : Runs (awaitAll settings spec (nodes.filter (·.isUnderWay spec))) awaited
        (some node)) :
      WorkerStages settings spec nodes awaited (.ok (.stalled node.name))
  | batch {awaited batch : List (Event Cluster)}
      {result : Except Failure (List String × Option String)}
      (await : Runs (awaitAll settings spec (nodes.filter (·.isUnderWay spec))) awaited none)
      (run : Runs (selectBatch settings spec
        (min (spec.workerLimit settings.defaultMaxUnavailable)
          (nodes.filter (·.isCandidate spec)).length)
        (nodes.filter (·.isCandidate spec))).run batch result) :
      WorkerStages settings spec nodes (awaited ++ batch) (result.map fun
        | (_, some name) => .stalled name
        | (selected, none) =>
          if selected.isEmpty && (nodes.filter (·.isUnderWay spec)).isEmpty then .steady
          else .advanced selected)

theorem workerStages_of_runs {result : Except Failure PassOutcome}
    (h : Runs (workerTier settings spec nodes).run events result) :
    WorkerStages settings spec nodes events result := by
  obtain ⟨awaited, stuck, rest, hawait, hrest, rfl⟩ := runs_lift_iff.mp h
  cases stuck with
  | some node =>
    cases hrest
    rw [List.append_nil]
    exact .stuck hawait
  | none =>
    rcases runs_attempt_iff.mp hrest with
      ⟨failure, hbatch, rfl⟩ | ⟨batch, r, last, hbatch, hlast, rfl⟩
    · exact .batch hawait hbatch
    · have hstages := WorkerStages.batch hawait hbatch
      obtain ⟨selected, stuck⟩ := r
      cases stuck with
      | some name =>
        cases hlast
        rw [List.append_nil]
        exact hstages
      | none =>
        dsimp only at hlast
        simp only [Except.map] at hstages
        split at hlast
        next hempty =>
          cases hlast
          rw [List.append_nil]
          rwa [if_pos hempty] at hstages
        next hmoved =>
          cases hlast
          rw [List.append_nil]
          rwa [if_neg hmoved] at hstages

/-- What the control-plane tier does: it awaits the node under way, or it marks and awaits the first
candidate, or there is neither. -/
inductive ControlPlaneStages (settings : Settings) (spec : Spec) (nodes : List Node) :
    List (Event Cluster) → Except Failure (Option PassOutcome) → Prop where
  | underWay {node : Node} {awaited : List (Event Cluster)} {reached : Bool}
      (hway : nodes.find? (·.isUnderWay spec) = some node)
      (await : Runs (await settings spec node) awaited reached) :
      ControlPlaneStages settings spec nodes awaited
        (.ok (some (if reached then .advanced [] else .stalled node.name)))
  | unselected {node : Node} {chosen : List (Event Cluster)} {failure : Failure}
      (hway : nodes.find? (·.isUnderWay spec) = none)
      (hcandidate : nodes.find? (·.isCandidate spec) = some node)
      (select : Runs (select spec node).run chosen (.error failure)) :
      ControlPlaneStages settings spec nodes chosen (.error failure)
  | selected {node : Node} {chosen awaited : List (Event Cluster)} {reached : Bool}
      (hway : nodes.find? (·.isUnderWay spec) = none)
      (hcandidate : nodes.find? (·.isCandidate spec) = some node)
      (select : Runs (select spec node).run chosen (.ok ()))
      (await : Runs (await settings spec node) awaited reached) :
      ControlPlaneStages settings spec nodes (chosen ++ awaited)
        (.ok (some (if reached then .advanced [node.name] else .stalled node.name)))
  | idle (hway : nodes.find? (·.isUnderWay spec) = none)
      (hcandidate : nodes.find? (·.isCandidate spec) = none) :
      ControlPlaneStages settings spec nodes [] (.ok none)

theorem awaits_of_last {selected : List String} {result : Except Failure (Option PassOutcome)}
    (h : Runs (do return some (← ExceptT.lift (awaitLast settings spec node selected)) :
      Procedure (Option PassOutcome)).run events result) :
    ∃ reached, Runs (await settings spec node) events reached ∧
      result = .ok (some (if reached then .advanced selected else .stalled node.name)) := by
  obtain ⟨first, outcome, rest, hlast, hdone, rfl⟩ := runs_lift_iff.mp h
  cases hdone
  obtain ⟨reached, hawait, rfl⟩ := awaits_of_awaitLast hlast
  rw [List.append_nil]
  exact ⟨reached, hawait, rfl⟩

theorem controlPlaneStages_of_runs {result : Except Failure (Option PassOutcome)}
    (h : Runs (controlPlaneTier settings spec nodes).run events result) :
    ControlPlaneStages settings spec nodes events result := by
  unfold controlPlaneTier at h
  split at h
  next node hway =>
    obtain ⟨reached, hawait, rfl⟩ := awaits_of_last h
    exact .underWay hway hawait
  next hway =>
    split at h
    next node hcandidate =>
      rcases runs_attempt_iff.mp h with
        ⟨failure, hselect, rfl⟩ | ⟨chosen, _, last, hselect, hlast, rfl⟩
      · exact .unselected hway hcandidate hselect
      · obtain ⟨reached, hawait, rfl⟩ := awaits_of_last hlast
        exact .selected hway hcandidate hselect hawait
    next hcandidate =>
      cases h
      exact .idle hway hcandidate

/-- What a pass does with the nodes that it listed: nothing where none is behind, else the tiers. -/
inductive ListStages (settings : Settings) (spec : Spec) (nodes : List Node) :
    List (Event Cluster) → Except Failure PassOutcome → Prop where
  | steady (hcurrent : ∀ node ∈ nodes, node.needsUpgrade spec = false) :
      ListStages settings spec nodes [] (.ok .steady)
  | controlPlane {events : List (Event Cluster)} {result : Except Failure PassOutcome}
      (tier : ControlPlaneStages settings spec (nodes.filter (·.isControlPlane)) events
        (result.map some)) :
      ListStages settings spec nodes events result
  | worker {events : List (Event Cluster)} {result : Except Failure PassOutcome}
      (tier : ControlPlaneStages settings spec (nodes.filter (·.isControlPlane)) [] (.ok none))
      (workers : WorkerStages settings spec (nodes.filter (!·.isControlPlane)) events result) :
      ListStages settings spec nodes events result

namespace ControlPlaneStages

theorem eq_nil (h : ControlPlaneStages settings spec nodes events (.ok none)) : events = [] := by
  cases h
  rfl

theorem find?_eq_none (h : ControlPlaneStages settings spec nodes events (.ok none)) :
    nodes.find? (·.isUnderWay spec) = none ∧ nodes.find? (·.isCandidate spec) = none := by
  cases h with
  | idle hway hcandidate => exact ⟨hway, hcandidate⟩

/-- A tier that leaves the pass to the workers has no node behind. -/
theorem current (h : ControlPlaneStages settings spec nodes events (.ok none)) :
    ∀ node ∈ nodes, node.needsUpgrade spec = false := by
  intro node hnode
  have hnotWay := List.find?_eq_none.mp h.find?_eq_none.1 node hnode
  have hnotCandidate := List.find?_eq_none.mp h.find?_eq_none.2 node hnode
  cases hselected : node.isSelectedFor spec with
  | true => simpa [Node.isUnderWay, hselected] using hnotWay
  | false => simpa [Node.isCandidate, hselected] using hnotCandidate

/-- A tier that ends the pass has a node behind. -/
theorem behind {result : Except Failure PassOutcome}
    (h : ControlPlaneStages settings spec nodes events (result.map some)) :
    ∃ node ∈ nodes, node.needsUpgrade spec = true := by
  generalize hresult : result.map some = tier at h
  cases h with
  | underWay hway =>
    have hfound := List.find?_some hway
    exact ⟨_, List.mem_of_find?_eq_some hway, (Bool.and_eq_true_iff.mp hfound).2⟩
  | unselected _ hcandidate | selected _ hcandidate =>
    have hfound := List.find?_some hcandidate
    exact ⟨_, List.mem_of_find?_eq_some hcandidate, (Bool.and_eq_true_iff.mp hfound).2⟩
  | idle => cases result <;> cases hresult

end ControlPlaneStages

theorem eq_ok_of_map_some {α ε : Type} {result : Except ε α} {a : α}
    (h : result.map some = .ok (some a)) : result = .ok a := by
  cases result with
  | error => cases h
  | ok =>
    cases h
    rfl

theorem listStages_of_runs {result : Except Failure PassOutcome}
    (h : Runs (afterList settings spec nodes).run events result) :
    ListStages settings spec nodes events result := by
  unfold afterList at h
  split at h
  next hcurrent =>
    cases h
    exact .steady (by simpa using hcurrent)
  next =>
    rcases runs_attempt_iff.mp h with ⟨failure, htier, rfl⟩ | ⟨first, r, rest, htier, hrest, rfl⟩
    · have hstages := controlPlaneStages_of_runs htier
      exact .controlPlane hstages
    · have hstages := controlPlaneStages_of_runs htier
      cases r with
      | some outcome =>
        cases hrest
        rw [List.append_nil]
        exact .controlPlane hstages
      | none =>
        -- a tier that leaves the pass to the workers made no calls
        obtain rfl := hstages.eq_nil
        exact .worker hstages (workerStages_of_runs hrest)

end Pass

end NodeRollout
