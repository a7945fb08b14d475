import NodeRollout.Proofs.Account
import NodeRollout.Proofs.Retarget

/-! A node that is stuck holds up everything behind it. A pass only waits for the nodes that are
under way, in the order of the list, and it goes on to mark others when all of them were read at the
target. So no pass marks a node for as long as one that was marked before stays behind. -/
namespace NodeRollout

open Program

/-- The calls of a wait for one node. It writes nothing, its reads are of that node, and it succeeds
when one of them shows the node at the target. -/
structure Watches (spec : Spec) (name : String) (events : List (Event Cluster)) (reached : Bool) :
    Prop where
  quiet : ∀ e ∈ events, e.isPatch = false
  own : ∀ e ∈ events, ∀ other, e.shows spec other = true → other = name
  reached_eq : reached = events.any (·.shows spec name)

namespace Watches

variable {spec : Spec} {name : String} {events events' : List (Event Cluster)} {a b : Bool}

theorem nil : Watches spec name [] false := ⟨by simp, by simp, rfl⟩

theorem append (h : Watches spec name events a) (h' : Watches spec name events' b) :
    Watches spec name (events ++ events') (a || b) where
  quiet := List.forall_mem_append.mpr ⟨h.quiet, h'.quiet⟩
  own := List.forall_mem_append.mpr ⟨h.own, h'.own⟩
  reached_eq := by rw [List.any_append, h.reached_eq, h'.reached_eq]

theorem idle {e : Event Cluster} (hpatch : e.isPatch = false)
    (hshows : ∀ other, e.shows spec other = false) : Watches spec name [e] false where
  quiet := by simpa using hpatch
  own := by simp [hshows]
  reached_eq := by simp [hshows]

theorem read (start deadline ended : Nat) (answer : Except Failure Node) :
    Watches spec name [⟨.readUntil name start deadline, some (ended, answer)⟩]
      (Wait.reached spec answer) where
  quiet := by simp [Event.isPatch]
  own := by simp [Event.shows]
  reached_eq := by simp [Event.shows]

end Watches

section Waits

variable {settings : Settings} {spec : Spec} {name : String} {node : Node}
  {events : List (Event Cluster)}

theorem Wait.watches_of_poll {interval deadline tick : Nat} {ended : Option Nat}
    (h : Runs (poll name spec interval deadline tick) events ended) :
    Watches spec name events ended.isSome := by
  -- induction over the reads: none before the last one shows the target
  induction tick using Wait.poll.induct interval deadline generalizing events with
  | case1 tick htick ih =>
    rw [poll, dif_pos htick] at h
    cases h with
    | @ask _ _ events _ answer hrest =>
      cases answer with
      | none =>
        cases hrest
        exact .idle rfl fun _ => rfl
      | some read =>
        obtain ⟨time, answer⟩ := read
        have hread : Watches spec name _ _ := .read tick deadline time answer
        cases hreached : reached spec answer with
        | true =>
          simp only [hreached, if_true] at hrest
          cases hrest
          rwa [hreached] at hread
        | false =>
          simp only [hreached, Bool.false_eq_true, if_false] at hrest
          rw [hreached] at hread
          exact hread.append (ih time hrest)
  | case2 tick htick =>
    rw [poll, dif_neg htick] at h
    cases h with
    | ask answer hrest =>
      cases hrest
      exact .idle rfl fun _ => rfl

theorem Wait.watches_of_run {elapsed : Option Nat}
    (h : Runs (run settings name spec) events elapsed) :
    Watches spec name events elapsed.isSome := by
  by_cases hinterval : settings.pollInterval = 0
  · rw [run, if_pos hinterval] at h
    cases h
    exact .nil
  · obtain ⟨t, polling, ended, rfl, rfl, hpoll⟩ := polls_of_run hinterval h
    have hnow : Watches spec name [⟨.now, t⟩] false := .idle rfl fun _ => rfl
    rw [Option.isSome_map]
    exact hnow.append (watches_of_poll hpoll)

theorem Pass.watches_of_await {reached : Bool} (h : Runs (await settings spec node) events reached) :
    Watches spec node.name events reached := by
  obtain ⟨waiting, elapsed, hwait, rfl, rfl⟩ := waits_of_await h
  have hcount : Watches spec node.name [⟨.count (ending node elapsed), ()⟩] false :=
    .idle rfl fun _ => rfl
  have hboth := (Wait.watches_of_run hwait).append hcount
  rwa [Bool.or_false] at hboth

end Waits

/-- The calls of waits for these nodes in turn. The first node that no read shows at the target ends
them. -/
structure WatchesAll (spec : Spec) (nodes : List Node) (events : List (Event Cluster))
    (stuck : Option Node) : Prop where
  quiet : ∀ e ∈ events, e.isPatch = false
  own : ∀ e ∈ events, ∀ other, e.shows spec other = true → other ∈ nodes.map Node.name
  stuck_eq : stuck = nodes.find? fun node => !events.any (·.shows spec node.name)

namespace WatchesAll

variable {spec : Spec} {node : Node} {rest : List Node} {events events' : List (Event Cluster)}
  {stuck : Option Node}

theorem missed (h : Watches spec node.name events false) :
    WatchesAll spec (node :: rest) events (some node) where
  quiet := h.quiet
  own e he other hshows := by simp [h.own e he other hshows]
  stuck_eq := by rw [List.find?_cons_of_pos (by rw [← h.reached_eq]; rfl)]

theorem reached (h : Watches spec node.name events true) (h' : WatchesAll spec rest events' stuck)
    (hname : node.name ∉ rest.map Node.name) :
    WatchesAll spec (node :: rest) (events ++ events') stuck where
  quiet := List.forall_mem_append.mpr ⟨h.quiet, h'.quiet⟩
  own := by
    refine List.forall_mem_append.mpr ⟨?_, ?_⟩
    · intro e he other hshows
      simp [h.own e he other hshows]
    · intro e he other hshows
      exact List.mem_cons_of_mem _ (h'.own e he other hshows)
  stuck_eq := by
    have hnode : events.any (·.shows spec node.name) = true := h.reached_eq.symm
    rw [h'.stuck_eq, List.find?_cons_of_neg (by simp [hnode])]
    rw [← List.head?_filter, ← List.head?_filter]
    -- the reads of the first wait show none of the other nodes
    refine congrArg List.head? (List.filter_congr fun other hother => ?_)
    have hfirst : events.any (·.shows spec other.name) = false := by
      refine List.any_eq_false.mpr fun e he hshows => hname ?_
      rw [← h.own e he other.name hshows]
      exact List.mem_map_of_mem hother
    rw [List.any_append, hfirst, Bool.false_or]

end WatchesAll

namespace Pass

variable {settings : Settings} {spec : Spec} {nodes : List Node} {events : List (Event Cluster)}

theorem watchesAll_of_awaitAll {stuck : Option Node} (hnames : (nodes.map Node.name).Nodup)
    (h : Runs (awaitAll settings spec nodes) events stuck) : WatchesAll spec nodes events stuck := by
  induction nodes generalizing events with
  | nil =>
    cases h
    exact ⟨by simp, by simp, rfl⟩
  | cons node rest ih =>
    obtain ⟨hname, hrest⟩ := List.nodup_cons.mp hnames
    obtain ⟨first, reached, last, hawait, hlast, rfl⟩ := runs_bind_iff.mp h
    have hfirst := watches_of_await hawait
    cases reached with
    | false =>
      cases hlast
      rw [List.append_nil]
      exact .missed hfirst
    | true => exact .reached hfirst (ih hrest hlast) hname

theorem any_needsUpgrade_of_underWay {node : Node} (hnode : node ∈ nodes)
    (hway : node.isUnderWay spec = true) :
    ¬ ∀ node ∈ nodes, node.needsUpgrade spec = false := by
  intro hcurrent
  have hbehind := (Bool.and_eq_true_iff.mp hway).2
  rw [hcurrent node hnode] at hbehind
  exact Bool.false_ne_true hbehind

/-- While a control-plane node is under way, a pass awaits the first one and does nothing else. -/
theorem await_of_controlPlane {result : Except Failure PassOutcome} {first : Node}
    (h : Runs (afterList settings spec nodes).run events result)
    (hfirst : nodes.find? (fun node => node.isControlPlane && node.isUnderWay spec) = some first) :
    ∃ reached, Runs (await settings spec first) events reached ∧
      result = .ok (if reached then .advanced [] else .stalled first.name) := by
  have hfind : (nodes.filter (·.isControlPlane)).find? (·.isUnderWay spec) = some first := by
    rw [List.find?_filter, ← hfirst]
    simp
  have hmem : first ∈ nodes.filter (·.isControlPlane) := List.mem_of_find?_eq_some hfind
  have hway : first.isUnderWay spec = true := by simpa using List.find?_some hfind
  cases listStages_of_runs h with
  | steady hcurrent =>
    exact absurd hcurrent (any_needsUpgrade_of_underWay (List.mem_of_mem_filter hmem) hway)
  | controlPlane htier =>
    generalize hresult : result.map some = tier at htier
    cases htier with
    | underWay hfound hawait =>
      obtain rfl := Option.some.inj (hfound.symm.trans hfind)
      exact ⟨_, hawait, eq_ok_of_map_some hresult⟩
    | unselected hnone | selected hnone | idle hnone =>
      rw [hfind] at hnone
      cases hnone
  | worker htier hworkers =>
    exact absurd htier.current (any_needsUpgrade_of_underWay hmem hway)

/-- With the control plane at the target, a pass awaits the workers under way in turn. If one of them
is never read at the target, it ends with the first such one. -/
theorem awaitAll_of_workers {result : Except Failure PassOutcome}
    (h : Runs (afterList settings spec nodes).run events result)
    (hnames : (nodes.map Node.name).Nodup)
    (hdone : ∀ node ∈ nodes, node.isControlPlane = true → node.needsUpgrade spec = false)
    (hstuck : ∃ node ∈ nodes, node.isControlPlane = false ∧ node.isUnderWay spec = true ∧
      events.any (·.shows spec node.name) = false) :
    ∃ first, Runs (awaitAll settings spec
        ((nodes.filter (!·.isControlPlane)).filter (·.isUnderWay spec))) events (some first) ∧
      result = .ok (.stalled first.name) := by
  obtain ⟨node, hnode, hrole, hway, hnever⟩ := hstuck
  cases listStages_of_runs h with
  | steady hcurrent => exact absurd hcurrent (any_needsUpgrade_of_underWay hnode hway)
  | controlPlane htier =>
    obtain ⟨behind, hmem, hneeds⟩ := htier.behind
    obtain ⟨hlisted, hrole'⟩ := List.mem_filter.mp hmem
    rw [hdone behind hlisted hrole'] at hneeds
    cases hneeds
  | worker htier hworkers =>
    cases hworkers with
    | stuck hawait => exact ⟨_, hawait, rfl⟩
    | @batch awaited batch _ hawait _ =>
      -- every worker under way was read at the target, this one too
      have hsub : (((nodes.filter (!·.isControlPlane)).filter (·.isUnderWay spec)).map
          Node.name).Nodup :=
        hnames.sublist ((List.filter_sublist.trans List.filter_sublist).map Node.name)
      have hmem : node ∈ (nodes.filter (!·.isControlPlane)).filter (·.isUnderWay spec) :=
        List.mem_filter.mpr ⟨List.mem_filter.mpr ⟨hnode, by simp [hrole]⟩, hway⟩
      have hall := (watchesAll_of_awaitAll hsub hawait).stuck_eq
      have hshown := List.find?_eq_none.mp hall.symm node hmem
      rw [List.any_append, Bool.or_eq_false_iff] at hnever
      simp [hnever.1] at hshown

/-- The waits of these calls are for these nodes in turn, up to the one that got stuck. -/
structure WaitsFor (spec : Spec) (nodes : List Node) (events : List (Event Cluster))
    (stuck : Option Node) : Prop where
  asked : ∃ asked, Asked nodes stuck asked ∧
    List.Forall₂ (fun node wait => On node.name wait) asked (waits events)
  ends : Ends spec (waits events) (stuck.map Node.name)

theorem waitsFor_of_await (hproper : Proper settings) {node : Node} {reached : Bool}
    (h : Runs (await settings spec node) events reached) :
    WaitsFor spec [node] events (if reached then none else some node) := by
  obtain ⟨wait, hon, haccount⟩ := (awaited_of_runs hproper h).account
  have hends := haccount.ends
  have hwaits : List.Forall₂ (fun node wait => On node.name wait) [node] (waits events) := by
    rw [haccount.waits_eq]
    exact .cons hon .nil
  rw [← haccount.waits_eq] at hends
  cases reached with
  | true => exact ⟨⟨[node], .all _, hwaits⟩, hends⟩
  | false => exact ⟨⟨[node], .upTo [] node [], hwaits⟩, hends⟩

theorem waitsFor_of_awaitAll (hproper : Proper settings) {stuck : Option Node}
    (h : Runs (awaitAll settings spec nodes) events stuck) : WaitsFor spec nodes events stuck := by
  obtain ⟨asked, ws, hasked, hons, haccount⟩ := (awaitedAll_of_runs hproper h).account
  have hends := haccount.ends
  rw [← haccount.waits_eq] at hons hends
  exact ⟨⟨asked, hasked, hons⟩, hends⟩

end Pass

/-- The two specs ask the nodes for the same versions; they may differ in how. -/
def Spec.SameTarget (spec spec' : Spec) : Prop :=
  spec'.kubeVersion = spec.kubeVersion ∧
    (spec.kubeVersion.isEmpty = true → spec'.osVersion = spec.osVersion)

theorem Spec.SameTarget.selectionValue_eq {spec spec' : Spec} (h : spec.SameTarget spec') :
    spec'.selectionValue = spec.selectionValue := by
  simp only [selectionValue, target, h.1]
  split
  next hempty => rw [h.2 hempty]
  next => rfl

theorem Spec.SameTarget.needsUpgrade_eq {spec spec' : Spec} (h : spec.SameTarget spec')
    (node : Node) : node.needsUpgrade spec' = node.needsUpgrade spec := by
  simp only [Node.needsUpgrade, h.1]
  split
  next hempty => rw [h.2 hempty]
  next => rfl

namespace History

/-- The node carries the marker for the target and is behind it; if it is a worker, the control
plane is at the target. -/
def Stuck (spec : Spec) (name : String) (h : History) : Prop :=
  ∃ node, h.find? name = some node ∧ node.isUnderWay spec = true ∧
    (node.isControlPlane = false → h.ControlPlaneDone spec)

theorem stuck_congr {spec spec' : Spec} (hsame : spec.SameTarget spec') (name : String)
    (h : History) : h.Stuck spec' name ↔ h.Stuck spec name := by
  have hway : ∀ node : Node, node.isUnderWay spec' = node.isUnderWay spec := by
    intro node
    rw [Node.isUnderWay, Node.isUnderWay, Node.isSelectedFor, Node.isSelectedFor,
      hsame.selectionValue_eq, hsame.needsUpgrade_eq]
  simp only [Stuck, ControlPlaneDone, hway, hsame.needsUpgrade_eq]

/-- Others may do anything that leaves the node stuck. -/
abbrev holding (spec : Spec) (name : String) : Setting Cluster History :=
  among (fun h h' => h.Stuck spec name → h'.Stuck spec name) (fun _ => id) (fun a b => b ∘ a)

end History

namespace Pass

open History

variable {spec : Spec} {name : String} {h : History}

/-- A call that writes no node. -/
def Idle (m : Moment Cluster History) : Prop := m.event.isPatch = false ∧ m.after = m.before

theorem idle_of_serves {c : ClusterCall} {answer : c.Answer} {h' : History}
    (hc : c.isWrite = false) (hs : (holding spec name).Serves h c answer h') :
    Idle ⟨h, ⟨c, answer⟩, h'⟩ := by
  have hserves : h.Serves c answer h' := hs
  cases c with
  | patch seen changes => cases hc
  | _ => exact ⟨rfl, hserves.eq (by simp)⟩

theorem stable_stuck : Stable (holding spec name) (Stuck spec name) where
  others ho h := ho h
  calls {s c answer t} hc hs h := by
    have heq : t = s := (idle_of_serves hc hs).2
    exact heq ▸ h

theorem decides_stuck (settings : Settings) (other : String) :
    Wait.Decides (holding spec name) Idle settings other spec (Stuck spec name)
      (fun reached _ => reached = true → other ≠ name) where
  stable := stable_stuck
  lasts _ := ⟨fun _ h => h, fun _ _ h => h⟩
  calls hc hs _ := idle_of_serves hc hs
  read := by
    rintro h start deadline ended node h' ⟨-, hread⟩ hat ⟨stuck, hstuck, hway, -⟩ - rfl
    -- the read gives the stored record, and the stored record is behind the target
    obtain rfl := Option.some.inj (hstuck.symm.trans (hread ended node rfl))
    simp [Node.isUnderWay, hat] at hway
  late _ _ := nofun
  asleep _ _ := nofun
  unscheduled _ _ := nofun

/-- The control-plane tier over a list in which a node is stuck; it goes on to the workers only when
the stuck node is one of them. -/
theorem assures_controlPlaneTier_stuck (settings : Settings) {nodes : List Node} {node : Node}
    {listed : History} (hlist : listed.IsSnapshot nodes) (hnode : node ∈ nodes)
    (hway : node.isUnderWay spec = true)
    (hrole : node.isControlPlane = false → listed.ControlPlaneDone spec)
    (hs : h.Stuck spec name) :
    Assures (holding spec name) Idle
      (controlPlaneTier settings spec (nodes.filter (·.isControlPlane))).run
      (fun h r => h.Stuck spec name ∧ (r = .ok none → node.isControlPlane = false)) h := by
  unfold controlPlaneTier
  split
  next first hfind =>
    have hlast := assures_awaitLast_of_decides [] (decides_stuck settings first.name) hs
    refine Assures.lift (hlast.mono fun t outcome ht => ?_)
    exact Assures.done fun u hu => ⟨hu ht, by simp⟩
  next hnone =>
    -- no control-plane node is under way, so the stuck one is a worker
    have hworker : node.isControlPlane = false := by
      by_contra hcp
      have hcp' : node ∈ nodes.filter (·.isControlPlane) :=
        List.mem_filter.mpr ⟨hnode, by simpa using hcp⟩
      exact List.find?_eq_none.mp hnone node hcp' hway
    have hcandidate : (nodes.filter (·.isControlPlane)).find? (·.isCandidate spec) = none := by
      refine List.find?_eq_none.mpr fun other hother => ?_
      obtain ⟨hmem, hrole'⟩ := List.mem_filter.mp hother
      have hat := hrole hworker other.name other ((hlist.2 other).mp hmem) hrole'
      simp [Node.isCandidate, hat]
    rw [hcandidate]
    exact Assures.done fun t ht => ⟨ht hs, fun _ => hworker⟩

theorem assures_workerTier_stuck (settings : Settings) {workers : List Node} {node : Node}
    (hnode : node ∈ workers) (hway : node.isUnderWay spec = true) (hname : node.name = name)
    (hs : h.Stuck spec name) :
    Assures (holding spec name) Idle (workerTier settings spec workers).run
      (fun _ _ => True) h := by
  have hawait := assures_awaitAll (fun node => decides_stuck settings node.name)
    (workers.filter (·.isUnderWay spec)) hs
  refine Assures.lift (hawait.mono fun t stuck ht => ?_)
  cases stuck with
  | some first => exact Assures.done fun _ _ => trivial
  | none =>
    -- the stuck node is among those that were awaited
    have hawaited := ht.2 node (List.mem_filter.mpr ⟨hnode, hway⟩) rfl
    exact absurd hname hawaited

/-- A pass makes only idle calls while a node is stuck. -/
theorem assures_run_stuck (settings : Settings) (hs : h.Stuck spec name) :
    Assures (holding spec name) Idle (run settings spec).run (fun _ _ => True) h := by
  unfold run
  split
  · exact Assures.done fun _ _ => trivial
  · refine Assures.attempt (Assures.ask fun t ht answer u hu => ⟨idle_of_serves rfl hu, ?_⟩)
    obtain ⟨rfl, hsnapshot⟩ := hu
    refine Assures.done fun v hv => ?_
    cases answer with
    | error failure => exact fun _ _ => trivial
    | ok nodes =>
      dsimp only
      split
      · exact Assures.done fun _ _ => trivial
      · rw [List.partition_eq_filter_filter]
        have hlist := hsnapshot nodes rfl
        obtain ⟨node, hnode, hway, hrole⟩ := ht hs
        have hmem : node ∈ nodes := (hlist.2 node).mpr (find?_name hnode)
        have htier := assures_controlPlaneTier_stuck settings hlist hmem hway hrole (hv (ht hs))
        refine Assures.attempt (htier.mono fun w r hw => ?_)
        match r, hw with
        | .error failure, _ => exact fun _ _ => trivial
        | .ok (some outcome), _ => exact Assures.done fun _ _ => trivial
        | .ok none, ⟨hstuck, hworker⟩ =>
          refine assures_workerTier_stuck settings ?_ hway (name_of_find? hnode) hstuck
          exact List.mem_filter.mpr ⟨hmem, by simp [hworker rfl]⟩

/-- Passes one after the other for the target of `spec`, each with settings and a spec of its own,
run to its end or abandoned. -/
inductive Series (spec : Spec) (E : Setting Cluster History) :
    History → List (Moment Cluster History) → History → Prop where
  | none (h : History) : Series spec E h [] h
  | pass {h h' h'' : History} {ms ms' : List (Moment Cluster History)} {settings : Settings}
      {spec' : Spec} {left : Program Cluster (Except Failure PassOutcome)}
      (same : spec.SameTarget spec') (course : Course E h (Pass.run settings spec').run ms h' left)
      (rest : Series spec E h' ms' h'') : Series spec E h (ms ++ ms') h''

theorem Series.idle {h' : History} {ms : List (Moment Cluster History)}
    (hseries : Series spec (holding spec name) h ms h') (hs : h.Stuck spec name) :
    (∀ m ∈ ms, m.event.isPatch = false) ∧ h'.Stuck spec name := by
  induction hseries with
  | none h => exact ⟨by simp, hs⟩
  | @pass h h' h'' ms ms' settings spec' left same course _ ih =>
    -- to be stuck is the same for the spec of this pass, which has the same target
    have hcourse : Course (holding spec' name) h (Pass.run settings spec').run ms h' left := by
      refine course.weaken id fun {s t} ho hs => ?_
      exact (stuck_congr same name t).mpr (ho ((stuck_congr same name s).mp hs))
    have hidle := ((assures_run_stuck settings ((stuck_congr same name h).mpr hs)).course hcourse).2
    have hlast : h'.Stuck spec name :=
      course.preserves (fun ho => ho) (fun m hm hbefore => (hidle m hm).2 ▸ hbefore) hs
    obtain ⟨hrest, hend⟩ := ih hlast
    exact ⟨List.forall_mem_append.mpr ⟨fun m hm => (hidle m hm).1, hrest⟩, hend⟩

/-- What a stuck node means for passes, whatever their calls are answered. -/
structure Blocks (spec : Spec) : Prop where
  /-- A pass begins with the list. -/
  lists : ∀ settings log result, Runs (run settings spec).run log result →
    ∃ answer events, log = ⟨.list, answer⟩ :: events
  /-- A pass comes to an end, however its list and the calls after it are answered. -/
  ends : ∀ settings answer world, ∃ events result,
    Runs (run settings spec).run (⟨.list, answer⟩ :: events) result ∧ Follows world events
  /-- A control-plane node under way in the list. -/
  controlPlane : ∀ settings nodes events result first,
    Runs (run settings spec).run (⟨.list, .ok nodes⟩ :: events) result →
    nodes.find? (fun node => node.isControlPlane && node.isUnderWay spec) = some first →
    (∀ e ∈ events, e.isPatch = false) ∧
      result = .ok (if events.any (·.shows spec first.name) then .advanced []
        else .stalled first.name) ∧
      (Proper settings → WaitsFor spec [first] events
        (if events.any (·.shows spec first.name) then none else some first))
  /-- A worker under way in the list that is never read at the target. -/
  worker : ∀ settings nodes events result,
    Runs (run settings spec).run (⟨.list, .ok nodes⟩ :: events) result →
    (nodes.map Node.name).Nodup →
    (∀ node ∈ nodes, node.isControlPlane = true → node.needsUpgrade spec = false) →
    (∃ node ∈ nodes, node.isControlPlane = false ∧ node.isUnderWay spec = true ∧
      events.any (·.shows spec node.name) = false) →
    (∀ e ∈ events, e.isPatch = false) ∧
      ∃ first, nodes.find? (fun node => !node.isControlPlane && node.isUnderWay spec &&
        !events.any (·.shows spec node.name)) = some first ∧ result = .ok (.stalled first.name) ∧
        (Proper settings → WaitsFor spec
          (nodes.filter fun node => !node.isControlPlane && node.isUnderWay spec) events (some first))
  /-- Passes over stored nodes of which one stays stuck. -/
  series : ∀ name h ms h', Series spec (holding spec name) h ms h' → h.Stuck spec name →
    (∀ m ∈ ms, m.event.isPatch = false) ∧ h'.Stuck spec name

theorem runs_afterList (hnoop : spec.isNoop = false) {settings : Settings} {nodes : List Node}
    {events : List (Event Cluster)} {result : Except Failure PassOutcome}
    (hrun : Runs (run settings spec).run (⟨.list, .ok nodes⟩ :: events) result) :
    Runs (afterList settings spec nodes).run events result := by
  rw [run_eq hnoop] at hrun
  cases hrun with
  | ask answer hrest => exact hrest

/-- A stuck node blocks everything behind it, for every target. -/
theorem run_blocked (spec : Spec) (hnoop : spec.isNoop = false) : Blocks spec where
  lists settings log result hrun := by
    rw [run_eq hnoop] at hrun
    cases hrun with
    | ask answer hrest => exact ⟨answer, _, rfl⟩
  ends settings answer world := by
    rw [run_eq hnoop]
    cases answer with
    | ok nodes =>
      obtain ⟨events, result, hrun, hfollows⟩ := exists_runs world (afterList settings spec nodes).run
      exact ⟨events, result, .ask _ hrun, hfollows⟩
    | error failure => exact ⟨[], _, .ask _ (.done _), fun _ _ _ h => by simp at h⟩
  controlPlane settings nodes events result first hrun hfirst := by
    obtain ⟨reached, hawait, rfl⟩ := await_of_controlPlane (runs_afterList hnoop hrun) hfirst
    have hwatches := watches_of_await hawait
    rw [← hwatches.reached_eq]
    exact ⟨hwatches.quiet, rfl, fun hproper => waitsFor_of_await hproper hawait⟩
  worker settings nodes events result hrun hnames hdone hstuck := by
    obtain ⟨first, hawait, rfl⟩ := awaitAll_of_workers (runs_afterList hnoop hrun) hnames hdone hstuck
    rw [List.filter_filter] at hawait
    simp only [Bool.and_comm] at hawait
    have hsub : ((nodes.filter fun node => !node.isControlPlane && node.isUnderWay spec).map
        Node.name).Nodup := hnames.sublist (List.filter_sublist.map Node.name)
    have hwatches := watchesAll_of_awaitAll hsub hawait
    have hfirst := hwatches.stuck_eq
    rw [List.find?_filter] at hfirst
    simp only [Bool.decide_and, Bool.decide_eq_true] at hfirst
    exact ⟨hwatches.quiet, first, hfirst.symm, rfl,
      fun hproper => waitsFor_of_awaitAll hproper hawait⟩
  series name h ms h' hseries hs := hseries.idle hs

section Sample

open Fleet Rollout

/-- A wait whose first read takes too long. -/
def timedOut (role : Role) (name : String) : List (Event Cluster) := [
  ⟨.now, 0⟩, ⟨.readUntil name 0 60, none⟩, ⟨.count (.timedOut role), ()⟩]

theorem runs_stuck_controlPlane : Runs (run shortWaits sampleSpec).run
    (⟨.list, .ok [markedControlPlane, oldWorker]⟩ :: timedOut .controlPlane "cp1")
    (.ok (.stalled "cp1")) := by
  refine .ask _ (.ask _ ?_)
  unfold Wait.poll
  exact .ask _ (.ask _ (.done _))

theorem runs_stuckWorker : Runs (run shortWaits sampleSpec).run
    (⟨.list, .ok [readyControlPlane, stuckWorker]⟩ :: timedOut .worker "w1")
    (.ok (.stalled "w1")) := by
  refine .ask _ (.ask _ ?_)
  unfold Wait.poll
  exact .ask _ (.ask _ (.done _))

theorem stuck_stuckNodes : stuckNodes.Stuck sampleSpec "w1" := by
  refine ⟨stuckWorker, by decide, by decide, fun _ name node hnode hrole => ?_⟩
  have hmem : ∀ node ∈ stuckNodes.records, node.isControlPlane = true →
      node.needsUpgrade sampleSpec = false := by decide
  exact hmem node (mem_records hnode) hrole

/-- A pass over the stored nodes that ends when its wait has timed out. -/
theorem series_stuckNodes : ∃ ms : List (Moment Cluster History),
    ms.map Moment.event = ⟨.list, .ok [readyControlPlane, stuckWorker]⟩ :: timedOut .worker "w1" ∧
    Series sampleSpec (holding sampleSpec "w1") stuckNodes ms stuckNodes := by
  have hlist : stuckNodes.IsSnapshot [readyControlPlane, stuckWorker] :=
    isSnapshot_of_records (by decide) (by decide) (by decide)
  have hserves : ∀ e ∈ ⟨.list, .ok [readyControlPlane, stuckWorker]⟩ :: timedOut .worker "w1",
      (holding sampleSpec "w1").Serves stuckNodes e.call e.answer stuckNodes := by
    rw [timedOut, List.forall_mem_cons, List.forall_mem_cons, List.forall_mem_cons,
      List.forall_mem_singleton]
    refine ⟨⟨rfl, ?_⟩, rfl, ⟨rfl, nofun⟩, rfl⟩
    rintro nodes ⟨⟩
    exact hlist
  have hseries := Series.pass ⟨rfl, fun _ => rfl⟩ (runs_stuckWorker.course_still hserves)
    (.none stuckNodes)
  rw [List.append_nil] at hseries
  exact ⟨_, by simp [Function.comp_def], hseries⟩

/-- A control-plane node and a worker that miss their deadlines, each with what the pass returns, and
all passes over stored nodes of which one is stuck. -/
theorem run_blocked_samples :
    (∀ result, Runs (run shortWaits sampleSpec).run
        (⟨.list, .ok [markedControlPlane, oldWorker]⟩ :: timedOut .controlPlane "cp1") result ↔
      result = .ok (.stalled "cp1")) ∧
    (∀ result, Runs (run shortWaits sampleSpec).run
        (⟨.list, .ok [readyControlPlane, stuckWorker]⟩ :: timedOut .worker "w1") result ↔
      result = .ok (.stalled "w1")) ∧
    (∃ ms : List (Moment Cluster History), ms.map Moment.event =
        ⟨.list, .ok [readyControlPlane, stuckWorker]⟩ :: timedOut .worker "w1" ∧
      Series sampleSpec (holding sampleSpec "w1") stuckNodes ms stuckNodes) ∧
    ∀ ms h', Series sampleSpec (holding sampleSpec "w1") stuckNodes ms h' →
      (∀ m ∈ ms, m.event.isPatch = false) ∧ h'.Stuck sampleSpec "w1" := by
  have hblocks := run_blocked sampleSpec (by decide)
  have hfirst : [markedControlPlane, oldWorker].find? (fun node => node.isControlPlane &&
      node.isUnderWay sampleSpec) = some markedControlPlane := by decide
  have hdone : ∀ node ∈ [readyControlPlane, stuckWorker], node.isControlPlane = true →
      node.needsUpgrade sampleSpec = false := by decide
  have hstuck : ∃ node ∈ [readyControlPlane, stuckWorker], node.isControlPlane = false ∧
      node.isUnderWay sampleSpec = true ∧
      (timedOut .worker "w1").any (·.shows sampleSpec node.name) = false := by decide
  refine ⟨fun result => ⟨fun hrun => ?_, ?_⟩, fun result => ⟨fun hrun => ?_, ?_⟩,
    series_stuckNodes, fun ms h' hseries => hblocks.series _ _ _ _ hseries stuck_stuckNodes⟩
  · exact (hblocks.controlPlane shortWaits _ _ _ _ hrun hfirst).2.1
  · rintro rfl
    exact runs_stuck_controlPlane
  · obtain ⟨-, first, hfind, hresult, -⟩ :=
      hblocks.worker shortWaits _ _ _ hrun (by decide) hdone hstuck
    have hworker : [readyControlPlane, stuckWorker].find? (fun node => !node.isControlPlane &&
        node.isUnderWay sampleSpec && !(timedOut .worker "w1").any (·.shows sampleSpec node.name)) =
          some stuckWorker := by decide
    obtain rfl := Option.some.inj (hfind.symm.trans hworker)
    exact hresult
  · rintro rfl
    exact runs_stuckWorker

end Sample

end Pass

end NodeRollout
