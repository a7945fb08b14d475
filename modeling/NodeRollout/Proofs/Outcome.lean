import NodeRollout.Config
import NodeRollout.Proofs.Account
import NodeRollout.Proofs.Throttle
import NodeRollout.Proofs.Writers

/-! The outcome of a pass tells what the pass did. What it says of the waits and of the failures can
be checked on the log of its calls, whatever they were answered. -/
namespace NodeRollout

open Program

namespace Pass

variable {settings : Settings} {spec : Spec} {node : Node} {nodes : List Node} {name : String}
  {log events : List (Event Cluster)}

/-- The settings of the operator are clamped. -/
theorem proper_settings (config : OperatorConfig) : Proper config.settings where
  interval := by
    simp only [OperatorConfig.settings]
    omega
  timeout := by
    simp only [OperatorConfig.settings]
    omega
  room := by
    simp only [OperatorConfig.settings]
    omega

/-- One node that was selected: its record in the list, the record that it was selected by, the
update of its marker, and the wait for it. -/
structure Selection where
  listed : Node
  record : Node
  update : List (Event Cluster)
  wait : List (Event Cluster)

/-- The log tells of this selection. A worker is selected by the record that was read just before,
and the wait is of the node that was selected. -/
structure Selection.Told (spec : Spec) (log : List (Event Cluster)) (s : Selection) : Prop where
  candidate : s.listed.isCandidate spec = true
  record : if s.listed.isControlPlane then s.record = s.listed
    else ⟨.get s.listed.name, .ok s.record⟩ :: s.update <:+: log
  behind : s.record.needsUpgrade spec = true
  updated : ∃ wrote, Runs (LabelUpdate.run s.record (selectPlan spec)).run s.update (.ok wrote)
  awaited : On s.record.name s.wait

/-- Some of these nodes were selected one after the other, by these updates as far as they made a
call. -/
structure Chosen (spec : Spec) (nodes : List Node) (log : List (Event Cluster))
    (selections : List Selection) (us : List (List (Event Cluster))) : Prop where
  told : ∀ s ∈ selections, s.Told spec log
  inOrder : (selections.map Selection.listed).Sublist nodes
  updates_eq : us = selections.flatMap fun s => callsOf s.update

theorem Selection.Told.mono {s : Selection} (h : s.Told spec events) (hlog : events <:+: log) :
    s.Told spec log where
  candidate := h.candidate
  record := by
    have hrecord := h.record
    split at hrecord
    next hrole => rwa [if_pos hrole]
    next hrole =>
      rw [if_neg hrole]
      exact hrecord.trans hlog
  behind := h.behind
  updated := h.updated
  awaited := h.awaited

/-- The record that a node is selected by is its own, where every read gives the record asked for. -/
theorem Selection.Told.name_eq {s : Selection} (h : s.Told spec log)
    (hnamed : ∀ e ∈ log, e.Named) : s.record.name = s.listed.name := by
  have hrecord := h.record
  split at hrecord
  next => rw [hrecord]
  next => exact hnamed ⟨.get s.listed.name, .ok s.record⟩ (hrecord.subset List.mem_cons_self)

namespace Chosen

variable {selections : List Selection} {us : List (List (Event Cluster))}

theorem nil : Chosen spec nodes log [] [] :=
  ⟨List.forall_mem_nil _, List.nil_sublist nodes, rfl⟩

theorem cons {s : Selection} (hs : s.Told spec log) (h : Chosen spec nodes log selections us) :
    Chosen spec (s.listed :: nodes) log (s :: selections) (callsOf s.update ++ us) where
  told := List.forall_mem_cons.mpr ⟨hs, h.told⟩
  inOrder := h.inOrder.cons_cons s.listed
  updates_eq := by rw [h.updates_eq, List.flatMap_cons]

/-- One node that was selected, the first of some. -/
theorem single {s : Selection} (hs : s.Told spec log) (rest : List Node) :
    Chosen spec (s.listed :: rest) log [s] (callsOf s.update) := by
  have hrest : Chosen spec rest log [] [] := nil
  simpa using cons hs hrest

theorem mono {all : List Node} (h : Chosen spec nodes events selections us)
    (hnodes : nodes.Sublist all) (hlog : events <:+: log) :
    Chosen spec all log selections us where
  told s hs := (h.told s hs).mono hlog
  inOrder := h.inOrder.trans hnodes
  updates_eq := h.updates_eq

theorem names_sublist (h : Chosen spec nodes log selections us) (hnamed : ∀ e ∈ log, e.Named) :
    (selections.map fun s => s.record.name).Sublist (nodes.map Node.name) := by
  have hnames : (selections.map fun s => s.record.name) =
      (selections.map Selection.listed).map Node.name := by
    rw [List.map_map]
    exact List.map_congr_left fun s hs => (h.told s hs).name_eq hnamed
  rw [hnames]
  exact h.inOrder.map Node.name

end Chosen

/-- First the nodes that were under way were awaited, and then these were selected, each of them
awaited in its turn. -/
def Moves (spec : Spec) (nodes way : List Node) (log : List (Event Cluster))
    (selected : List String) (ws us : List (List (Event Cluster))) : Prop :=
  ∃ resumed selections, ws = resumed ++ selections.map Selection.wait ∧
    List.Forall₂ (fun node wait => On node.name wait) way resumed ∧
    Chosen spec nodes log selections us ∧ selected = selections.map fun s => s.record.name

theorem Moves.mono {way all : List Node} {selected : List String}
    {ws us : List (List (Event Cluster))} (h : Moves spec nodes way events selected ws us)
    (hnodes : nodes.Sublist all) (hlog : events <:+: log) :
    Moves spec all way log selected ws us := by
  obtain ⟨resumed, selections, hws, hway, hselects, hselected⟩ := h
  exact ⟨resumed, selections, hws, hway, hselects.mono hnodes hlog, hselected⟩

/-- The listed nodes that a pass awaits before it selects any: the first control-plane node under
way while some control-plane node is behind, and after that the workers under way. -/
def underWay (spec : Spec) (nodes : List Node) : List Node :=
  if nodes.any fun node => node.isControlPlane && node.needsUpgrade spec then
    (nodes.find? fun node => node.isControlPlane && node.isUnderWay spec).toList
  else nodes.filter fun node => !node.isControlPlane && node.isUnderWay spec

/-- The node whose missed deadline ended the pass. -/
def stalled? : Except Failure PassOutcome → Option String
  | .ok (.stalled name) => some name
  | _ => none

/-- What a part of the pass that ends it did with these nodes, of which these were under way. -/
structure Goes (spec : Spec) (nodes way : List Node) (events : List (Event Cluster))
    (result : Except Failure PassOutcome) : Prop where
  account : ∃ ws us, Account spec events ws us (stalled? result) (failure? result) ∧
    ∀ selected, result = .ok (.advanced selected) →
      ws ≠ [] ∧ Moves spec nodes way events selected ws us
  target : result ≠ .ok .noTarget

section Tiers

/-- The worker that got stuck in a batch. -/
def batchStuck? : Except Failure (List String × Option String) → Option String
  | .ok (_, stuck) => stuck
  | .error _ => none

/-- What a batch did with these candidates. -/
structure Batched (spec : Spec) (room : Nat) (nodes : List Node) (events : List (Event Cluster))
    (result : Except Failure (List String × Option String)) : Prop where
  account : ∃ ws us, Account spec events ws us (batchStuck? result) (failure? result) ∧
    ∀ selected stuck, result = .ok (selected, stuck) →
      ∃ selections, Chosen spec nodes events selections us ∧
        ws = selections.map Selection.wait ∧ selected = selections.map fun s => s.record.name
  /-- Nothing is selected where there is no candidate, or where the first one is at the target. -/
  none_selected : ∀ stuck, result = .ok ([], stuck) → (room = 0 ∨ nodes = []) ∧ events = [] ∨
    ∃ first fresh, nodes.head? = some first ∧ events = [⟨.get first.name, .ok fresh⟩] ∧
      fresh.needsUpgrade spec = false

/-- The calls by which a node is selected begin with the update of its marker. -/
theorem account_of_select {r : Except Failure Unit}
    (h : Runs (select spec node).run events r) :
    ∃ update, Account spec events [] (callsOf update) none (failure? r) ∧ update <+: events ∧
      (r = .ok () →
        ∃ wrote, Runs (LabelUpdate.run node (selectPlan spec)).run update (.ok wrote)) := by
  obtain ⟨update, result, hupdate, hfailure, hprefix, haccount⟩ := account_select h
  refine ⟨update, haccount, hprefix, ?_⟩
  rintro rfl
  cases result with
  | ok wrote => exact ⟨wrote, hupdate⟩
  | error failure => cases hfailure

/-- The calls by which a node was selected and awaited, with what they come to. The wait begins with
the clock, so the update ends there. -/
structure Picked (spec : Spec) (node : Node) (events : List (Event Cluster)) (reached : Bool)
    (update wait : List (Event Cluster)) : Prop where
  account : Account spec events [wait] (callsOf update) (if reached then none else some node.name)
    none
  closed : ∀ rest, updates (events ++ rest) = callsOf update ++ updates rest
  first : update <+: events
  updated : ∃ wrote, Runs (LabelUpdate.run node (selectPlan spec)).run update (.ok wrote)
  on : On node.name wait

theorem picked_of_runs (hproper : Proper settings) {chosen awaited : List (Event Cluster)}
    {reached : Bool} (hselect : Runs (select spec node).run chosen (.ok ()))
    (hawait : Runs (await settings spec node) awaited reached) :
    ∃ update wait, Picked spec node (chosen ++ awaited) reached update wait := by
  obtain ⟨update, hchosen, hprefix, hupdated⟩ := account_of_select hselect
  have hawaited := awaited_of_runs hproper hawait
  obtain ⟨wait, hon, hwait⟩ := hawaited.account
  have hclosed : ∀ rest, updates (chosen ++ awaited ++ rest) = callsOf update ++ updates rest := by
    intro rest
    rw [List.append_assoc, hchosen.updates_append _ (hawaited.calm rest),
      updates_append_of_quiet hawaited.quiet]
  have hcalm := hawaited.calm []
  rw [List.append_nil] at hcalm
  have hboth := hchosen.append hwait hcalm
  rw [List.append_nil] at hboth
  exact ⟨update, wait, hboth, hclosed, hprefix.trans (List.prefix_append chosen awaited),
    hupdated rfl, hon⟩

namespace Picked

variable {listed fresh : Node} {update wait : List (Event Cluster)} {reached : Bool}

theorem told_controlPlane (h : Picked spec node events reached update wait)
    (hcandidate : node.isCandidate spec = true) (hrole : node.isControlPlane = true) :
    Selection.Told spec events ⟨node, node, update, wait⟩ where
  candidate := hcandidate
  record := (if_pos hrole).mpr rfl
  behind := (Bool.and_eq_true_iff.mp hcandidate).2
  updated := h.updated
  awaited := h.on

theorem told_worker (h : Picked spec fresh events reached update wait)
    (hcandidate : listed.isCandidate spec = true) (hrole : listed.isControlPlane = false)
    (hneeds : fresh.needsUpgrade spec = true) (rest : List (Event Cluster)) :
    Selection.Told spec (⟨.get listed.name, .ok fresh⟩ :: (events ++ rest))
      ⟨listed, fresh, update, wait⟩ where
  candidate := hcandidate
  record := by
    rw [if_neg (by simp [hrole])]
    have hfirst := h.first.trans (List.prefix_append events rest)
    exact (List.prefix_cons_inj _).mpr hfirst |>.isInfix
  behind := hneeds
  updated := h.updated
  awaited := h.on

end Picked

namespace Batched

variable {room : Nat} {listed fresh : Node} {rest : List Node}
  {us : List (List (Event Cluster))} {picked batch update wait : List (Event Cluster)}
  {failure : Failure}

theorem nothing (hempty : room = 0 ∨ nodes = []) : Batched spec room nodes [] (.ok ([], none)) where
  account := by
    refine ⟨[], [], .nil, ?_⟩
    rintro selected stuck ⟨⟩
    exact ⟨[], .nil, rfl, rfl⟩
  none_selected _ _ := .inl ⟨hempty, rfl⟩

theorem failed {ws : List (List (Event Cluster))}
    (h : Account spec events ws us none (some failure)) :
    Batched spec room nodes events (.error failure) :=
  ⟨⟨ws, us, h, nofun⟩, nofun⟩

theorem current (hmatch : fresh.needsUpgrade spec = false) :
    Batched spec (room + 1) (listed :: rest) [⟨.get listed.name, .ok fresh⟩] (.ok ([], none)) where
  account := by
    refine ⟨[], [], Account.nil.cons (get_ne_now _) rfl rfl, ?_⟩
    rintro selected stuck ⟨⟩
    exact ⟨[], .nil, rfl, rfl⟩
  none_selected _ _ := .inr ⟨listed, fresh, rfl, rfl, hmatch⟩

theorem stuck (hpicked : Picked spec fresh picked false update wait)
    (hcandidate : listed.isCandidate spec = true) (hrole : listed.isControlPlane = false)
    (hneeds : fresh.needsUpgrade spec = true) :
    Batched spec (room + 1) (listed :: rest) (⟨.get listed.name, .ok fresh⟩ :: picked)
      (.ok ([fresh.name], some fresh.name)) where
  account := by
    refine ⟨_, _, hpicked.account.cons (get_ne_now _) rfl rfl, ?_⟩
    rintro selected stuck ⟨⟩
    have htold := hpicked.told_worker hcandidate hrole hneeds []
    rw [List.append_nil] at htold
    have hselects := Chosen.single htold rest
    exact ⟨_, hselects, rfl, rfl⟩
  none_selected := nofun

/-- A candidate that got there, and the rest of the batch. -/
theorem cons {result : Except Failure (List String × Option String)}
    (hpicked : Picked spec fresh picked true update wait)
    (hcandidate : listed.isCandidate spec = true) (hrole : listed.isControlPlane = false)
    (hneeds : fresh.needsUpgrade spec = true) (h : Batched spec room rest batch result) :
    Batched spec (room + 1) (listed :: rest) (⟨.get listed.name, .ok fresh⟩ :: (picked ++ batch))
      (result.map fun r => (fresh.name :: r.1, r.2)) := by
  obtain ⟨ws, us, hbatch, hend⟩ := h.account
  have hboth := hpicked.account.append_of_updates hbatch fun rest _ => hpicked.closed (batch ++ rest)
  have hwhole : Account spec (⟨.get listed.name, .ok fresh⟩ :: (picked ++ batch)) _ _ _ _ :=
    hboth.cons (get_ne_now _) rfl rfl
  cases result with
  | error failure => exact failed hwhole
  | ok r =>
    obtain ⟨selected, stuck⟩ := r
    refine ⟨⟨_, _, hwhole, ?_⟩, nofun⟩
    rintro _ _ ⟨⟩
    obtain ⟨selections, hselects, rfl, rfl⟩ := hend selected stuck rfl
    have htold := hpicked.told_worker hcandidate hrole hneeds batch
    have hlog : batch <:+: ⟨.get listed.name, .ok fresh⟩ :: (picked ++ batch) :=
      (List.suffix_append picked batch).isInfix.trans (List.suffix_cons _ _).isInfix
    exact ⟨_, .cons htold (hselects.mono (List.Sublist.refl rest) hlog), rfl, rfl⟩

end Batched

theorem batched_of_runs (hproper : Proper settings) {room : Nat}
    {result : Except Failure (List String × Option String)}
    (hnodes : ∀ node ∈ nodes, node.isCandidate spec = true ∧ node.isControlPlane = false)
    (h : Runs (selectBatch settings spec room nodes).run events result) :
    Batched spec room nodes events result := by
  induction nodes generalizing room events result with
  | nil =>
    have hdone : selectBatch settings spec room [] = return ([], none) := by
      cases room <;> rfl
    rw [hdone] at h
    cases h
    exact .nothing (.inr rfl)
  | cons listed rest ih =>
    obtain ⟨⟨hcandidate, hrole⟩, hrest⟩ := List.forall_mem_cons.mp hnodes
    cases room with
    | zero =>
      cases h
      exact .nothing (.inl rfl)
    | succ room =>
      cases batchStep_of_runs h with
      | @unread failure =>
        have hrefused : Account spec _ [] [] none (some failure) :=
          .refusal (e := ⟨.get listed.name, .error failure⟩) (get_ne_now _) rfl rfl
        exact .failed hrefused
      | current hmatch => exact .current hmatch
      | unselected hneeds hselect =>
        obtain ⟨update, haccount, -⟩ := account_of_select hselect
        exact .failed (haccount.cons (get_ne_now _) rfl rfl)
      | stuck hneeds hselect hawait =>
        obtain ⟨update, wait, hpicked⟩ := picked_of_runs hproper hselect hawait
        exact .stuck hpicked hcandidate hrole hneeds
      | arrived hneeds hselect hawait hbatch =>
        obtain ⟨update, wait, hpicked⟩ := picked_of_runs hproper hselect hawait
        rw [← List.append_assoc]
        exact .cons hpicked hcandidate hrole hneeds (ih hrest hbatch)

namespace Goes

variable {way : List Node} {ws us : List (List (Event Cluster))} {selected : List String}

theorem failed {failure : Failure} (h : Account spec events ws us none (some failure)) :
    Goes spec nodes way events (.error failure) :=
  ⟨⟨_, _, h, nofun⟩, nofun⟩

theorem stalled (h : Account spec events ws us (some name) none) :
    Goes spec nodes way events (.ok (.stalled name)) :=
  ⟨⟨_, _, h, nofun⟩, nofun⟩

theorem steady (h : Account spec events ws us none none) :
    Goes spec nodes way events (.ok .steady) :=
  ⟨⟨_, _, h, nofun⟩, nofun⟩

theorem advanced (h : Account spec events ws us none none) (hwaited : ws ≠ [])
    (hmoves : Moves spec nodes way events selected ws us) :
    Goes spec nodes way events (.ok (.advanced selected)) := by
  refine ⟨⟨_, _, h, ?_⟩, nofun⟩
  rintro _ ⟨⟩
  exact ⟨hwaited, hmoves⟩

theorem awaited {reached : Bool} {wait : List (Event Cluster)}
    (h : Account spec events [wait] us (if reached then none else some name) none)
    (hmoves : Moves spec nodes way events selected [wait] us) :
    Goes spec nodes way events (.ok (if reached then .advanced selected else .stalled name)) := by
  cases reached with
  | true => exact advanced h (List.cons_ne_nil _ _) hmoves
  | false => exact stalled h

end Goes

/-- The control-plane tier that ends the pass. -/
theorem goes_of_controlPlaneStages (hproper : Proper settings)
    (hnodes : ∀ node ∈ nodes, node.isControlPlane = true) {result : Except Failure PassOutcome}
    (h : ControlPlaneStages settings spec nodes events (result.map some)) :
    result ≠ .ok .steady ∧
      Goes spec nodes (nodes.find? (·.isUnderWay spec)).toList events result := by
  generalize hresult : result.map some = tier at h
  cases h with
  | @underWay node _ _ hway hawait =>
    obtain rfl := eq_ok_of_map_some hresult
    obtain ⟨wait, hon, haccount⟩ := (awaited_of_runs hproper hawait).account
    have hmoves : Moves spec nodes [node] events [] [wait] [] :=
      ⟨[wait], [], rfl, .cons hon .nil, .nil, rfl⟩
    rw [hway]
    exact ⟨by split <;> simp, .awaited haccount hmoves⟩
  | unselected hway hcandidate hselect =>
    cases result with
    | ok => cases hresult
    | error failure =>
      cases hresult
      obtain ⟨update, haccount, -⟩ := account_of_select hselect
      exact ⟨nofun, .failed haccount⟩
  | @selected node _ _ _ hway hcandidate hselect hawait =>
    obtain rfl := eq_ok_of_map_some hresult
    obtain ⟨update, wait, hpicked⟩ := picked_of_runs hproper hselect hawait
    have hmem : node ∈ nodes := List.mem_of_find?_eq_some hcandidate
    have hcandidate' : node.isCandidate spec = true := by simpa using List.find?_some hcandidate
    have htold := hpicked.told_controlPlane hcandidate' (hnodes node hmem)
    have hselects := Chosen.single htold []
    have hmoves : Moves spec nodes [] _ [node.name] [wait] (callsOf update) :=
      ⟨[], _, rfl, .nil, hselects.mono (List.singleton_sublist.mpr hmem) (List.infix_refl _), rfl⟩
    rw [hway]
    exact ⟨by split <;> simp, .awaited hpicked.account hmoves⟩
  | idle => cases result <;> cases hresult

/-- Workers of which none is under way, and of which the first candidate was found at the target. -/
def FoundCurrent (spec : Spec) (workers : List Node) (events : List (Event Cluster)) : Prop :=
  (∀ node ∈ workers, node.isUnderWay spec = false) ∧
    ((∀ node ∈ workers, node.needsUpgrade spec = false) ∧ events = [] ∨
      ∃ first fresh, workers.find? (·.needsUpgrade spec) = some first ∧
        events = [⟨.get first.name, .ok fresh⟩] ∧ fresh.needsUpgrade spec = false)

theorem isCandidate_of_not_underWay (h : node.isUnderWay spec = false) :
    node.isCandidate spec = node.needsUpgrade spec := by
  unfold Node.isUnderWay at h
  unfold Node.isCandidate
  cases hselected : node.isSelectedFor spec with
  | true =>
    rw [hselected, Bool.true_and] at h
    rw [h, Bool.and_false]
  | false => rw [Bool.not_false, Bool.true_and]

theorem find?_congr {p q : Node → Bool} (h : ∀ node ∈ nodes, p node = q node) :
    nodes.find? p = nodes.find? q := by
  rw [← List.head?_filter, ← List.head?_filter, List.filter_congr h]

/-- A batch that selected nobody had no candidate, as the limit leaves room for one, or it found the
first one at the target. -/
theorem foundCurrent_of_batch {limit : Nat} {batch : List (Event Cluster)} {stuck : Option String}
    (hlimit : 0 < limit) (hnotWay : ∀ node ∈ nodes, node.isUnderWay spec = false)
    (hbatched : Batched spec (min limit (nodes.filter (·.isCandidate spec)).length)
      (nodes.filter (·.isCandidate spec)) batch (.ok ([], stuck))) :
    FoundCurrent spec nodes batch := by
  have hcandidate : ∀ node ∈ nodes, node.isCandidate spec = node.needsUpgrade spec :=
    fun node hnode => isCandidate_of_not_underWay (hnotWay node hnode)
  refine ⟨hnotWay, ?_⟩
  rcases hbatched.none_selected stuck rfl with ⟨hroom, rfl⟩ | ⟨first, fresh, hhead, rfl, hmatch⟩
  · have hempty : nodes.filter (·.isCandidate spec) = [] := by
      rcases hroom with hroom | hroom
      · apply List.length_eq_zero_iff.mp
        omega
      · exact hroom
    refine .inl ⟨fun node hnode => ?_, rfl⟩
    rw [← hcandidate node hnode]
    simpa using List.filter_eq_nil_iff.mp hempty node hnode
  · rw [List.head?_filter, find?_congr hcandidate] at hhead
    exact .inr ⟨first, fresh, hhead, rfl, hmatch⟩

theorem goes_of_workerStages (hproper : Proper settings)
    (hnodes : ∀ node ∈ nodes, node.isControlPlane = false) {result : Except Failure PassOutcome}
    (h : WorkerStages settings spec nodes events result) :
    Goes spec nodes (nodes.filter (·.isUnderWay spec)) events result ∧
      (result = .ok .steady → FoundCurrent spec nodes events) := by
  cases h with
  | stuck hawait =>
    obtain ⟨asked, ws, -, -, haccount⟩ := (awaitedAll_of_runs hproper hawait).account
    exact ⟨.stalled haccount, nofun⟩
  | @batch awaited batch result hawait hrun =>
    obtain ⟨⟨asked, ws, hasked, hons, haccount⟩, hquiet, hnil⟩ := awaitedAll_of_runs hproper hawait
    obtain rfl := hasked.eq_of_none
    have hcandidates : ∀ node ∈ nodes.filter (·.isCandidate spec),
        node.isCandidate spec = true ∧ node.isControlPlane = false := by
      intro node hnode
      obtain ⟨hmem, hcandidate⟩ := List.mem_filter.mp hnode
      exact ⟨hcandidate, hnodes node hmem⟩
    have hbatched := batched_of_runs hproper hcandidates hrun
    obtain ⟨ws', us, hbatch, hend⟩ := hbatched.account
    have hboth := haccount.append_of_quiet hquiet hbatch
    match result with
    | .error failure => exact ⟨.failed hboth, nofun⟩
    | .ok (_, some name) => exact ⟨.stalled hboth, nofun⟩
    | .ok (selected, none) =>
      obtain ⟨selections, hchosen, rfl, hselected⟩ := hend selected none rfl
      -- nobody was awaited and nobody selected, or one of the two lists has a node
      simp only [Except.map]
      split
      next hempty =>
        obtain ⟨hnone, hway⟩ := Bool.and_eq_true_iff.mp hempty
        obtain rfl : selected = [] := by simpa using hnone
        obtain rfl : awaited = [] := hnil (by simpa using hway)
        have hnotWay : ∀ node ∈ nodes, node.isUnderWay spec = false := by
          simpa [List.filter_eq_nil_iff] using hway
        have hlimit := spec.workerLimit_pos hproper.room
        exact ⟨.steady hboth, fun _ => foundCurrent_of_batch hlimit hnotWay hbatched⟩
      next hmoved =>
        have hwaited : ws ++ selections.map Selection.wait ≠ [] := by
          intro hwaits
          obtain ⟨rfl, hnone⟩ := List.append_eq_nil_iff.mp hwaits
          obtain rfl : selections = [] := List.map_eq_nil_iff.mp hnone
          have hway : nodes.filter (·.isUnderWay spec) = [] := List.forall₂_nil_right_iff.mp hons
          rw [hselected, hway] at hmoved
          exact hmoved rfl
        have hlog : batch <:+: awaited ++ batch := (List.suffix_append awaited batch).isInfix
        exact ⟨.advanced hboth hwaited ⟨ws, selections, rfl, hons,
          hchosen.mono List.filter_sublist hlog, hselected⟩, nofun⟩

/-- What a pass found that had nothing to do: every node at the target, or only workers that are
behind, of which none is under way and the first one was at the target when it was read again. -/
def Settled (spec : Spec) (nodes : List Node) (events : List (Event Cluster)) : Prop :=
  (∀ node ∈ nodes, node.needsUpgrade spec = false) ∧ events = [] ∨
    (∀ node ∈ nodes, node.isControlPlane = true → node.needsUpgrade spec = false) ∧
    (∀ node ∈ nodes, node.isControlPlane = false → node.isUnderWay spec = false) ∧
    ∃ first fresh,
      nodes.find? (fun node => !node.isControlPlane && node.needsUpgrade spec) = some first ∧
      events = [⟨.get first.name, .ok fresh⟩] ∧ fresh.needsUpgrade spec = false

theorem Settled.quiet (h : Settled spec nodes events) :
    (∀ e ∈ events, e.isPatch = false) ∧ waits events = [] := by
  rcases h with ⟨-, rfl⟩ | ⟨-, -, first, fresh, -, rfl, -⟩
  · exact ⟨List.forall_mem_nil _, rfl⟩
  · exact ⟨List.forall_mem_singleton.mpr rfl, rfl⟩

theorem Goes.of_filter {p : Node → Bool} {way : List Node} {result : Except Failure PassOutcome}
    (h : Goes spec (nodes.filter p) way events result) : Goes spec nodes way events result where
  account := by
    obtain ⟨ws, us, haccount, hend⟩ := h.account
    refine ⟨ws, us, haccount, fun selected hresult => ?_⟩
    obtain ⟨hwaits, hmoves⟩ := hend selected hresult
    exact ⟨hwaits, hmoves.mono List.filter_sublist (List.infix_refl events)⟩
  target := h.target

theorem underWay_of_behind
    (h : ∃ node ∈ nodes.filter (·.isControlPlane), node.needsUpgrade spec = true) :
    underWay spec nodes =
      ((nodes.filter (·.isControlPlane)).find? (·.isUnderWay spec)).toList := by
  obtain ⟨node, hnode, hbehind⟩ := h
  obtain ⟨hmem, hrole⟩ := List.mem_filter.mp hnode
  have hany : (nodes.any fun node => node.isControlPlane && node.needsUpgrade spec) = true :=
    List.any_eq_true.mpr ⟨node, hmem, by simp [hrole, hbehind]⟩
  rw [underWay, if_pos hany, List.find?_filter]
  simp

theorem underWay_of_current
    (h : ∀ node ∈ nodes.filter (·.isControlPlane), node.needsUpgrade spec = false) :
    underWay spec nodes = (nodes.filter (!·.isControlPlane)).filter (·.isUnderWay spec) := by
  have hnone : ¬ (nodes.any fun node => node.isControlPlane && node.needsUpgrade spec) = true := by
    intro hany
    obtain ⟨node, hmem, hboth⟩ := List.any_eq_true.mp hany
    obtain ⟨hrole, hbehind⟩ := Bool.and_eq_true_iff.mp hboth
    have hcurrent := h node (List.mem_filter.mpr ⟨hmem, hrole⟩)
    rw [hcurrent] at hbehind
    exact Bool.false_ne_true hbehind
  rw [underWay, if_neg hnone, List.filter_filter]
  simp only [Bool.and_comm]

theorem settled_of_foundCurrent
    (hdone : ∀ node ∈ nodes, node.isControlPlane = true → node.needsUpgrade spec = false)
    (h : FoundCurrent spec (nodes.filter (!·.isControlPlane)) events) :
    Settled spec nodes events := by
  obtain ⟨hway, hfound⟩ := h
  have hworker : ∀ node ∈ nodes, node.isControlPlane = false →
      node ∈ nodes.filter (!·.isControlPlane) := fun node hnode hrole =>
    List.mem_filter.mpr ⟨hnode, by simp [hrole]⟩
  rcases hfound with ⟨hcurrent, rfl⟩ | ⟨first, fresh, hfirst, rfl, hmatch⟩
  · refine .inl ⟨fun node hnode => ?_, rfl⟩
    cases hrole : node.isControlPlane with
    | true => exact hdone node hnode hrole
    | false => exact hcurrent node (hworker node hnode hrole)
  · rw [List.find?_filter] at hfirst
    refine .inr ⟨hdone, fun node hnode hrole => hway node (hworker node hnode hrole), ?_⟩
    exact ⟨first, fresh, by simpa using hfirst, rfl, hmatch⟩

theorem afterList_of_runs (hproper : Proper settings) {result : Except Failure PassOutcome}
    (h : Runs (afterList settings spec nodes).run events result) :
    Goes spec nodes (underWay spec nodes) events result ∧
      (result = .ok .steady → Settled spec nodes events) := by
  cases listStages_of_runs h with
  | steady hcurrent => exact ⟨.steady .nil, fun _ => .inl ⟨hcurrent, rfl⟩⟩
  | controlPlane htier =>
    have hroles : ∀ node ∈ nodes.filter (·.isControlPlane), node.isControlPlane = true :=
      fun node hnode => (List.mem_filter.mp hnode).2
    obtain ⟨hsteady, hgoes⟩ := goes_of_controlPlaneStages hproper hroles htier
    rw [underWay_of_behind htier.behind]
    exact ⟨hgoes.of_filter, fun hresult => absurd hresult hsteady⟩
  | worker htier hworkers =>
    have hroles : ∀ node ∈ nodes.filter (!·.isControlPlane), node.isControlPlane = false := by
      intro node hnode
      simpa using (List.mem_filter.mp hnode).2
    obtain ⟨hgoes, hfound⟩ := goes_of_workerStages hproper hroles hworkers
    rw [underWay_of_current htier.current]
    refine ⟨hgoes.of_filter, fun hresult => settled_of_foundCurrent ?_ (hfound hresult)⟩
    intro node hnode hrole
    exact htier.current node (List.mem_filter.mpr ⟨hnode, hrole⟩)

end Tiers

/-- The outcome of a pass agrees with the log of its calls. -/
structure Truthful (spec : Spec) (log : List (Event Cluster))
    (result : Except Failure PassOutcome) : Prop where
  noTarget_iff : result = .ok .noTarget ↔ spec.isNoop = true
  silent : spec.isNoop = true → log = []
  steady : result = .ok .steady → (∀ e ∈ log, e.isPatch = false) ∧ waits log = [] ∧
    ∃ nodes events, log = ⟨.list, .ok nodes⟩ :: events ∧ Settled spec nodes events
  /-- The waits of the log are those for the nodes under way and for the selected ones, and its
  updates are those by which these were selected. -/
  advanced : ∀ selected, result = .ok (.advanced selected) →
    waits log ≠ [] ∧ (∀ wait ∈ waits log, Arrives spec wait) ∧
      Moves spec (listed log) (underWay spec (listed log)) log selected (waits log) (updates log)
  order : (∀ e ∈ log, e.Named) → ∀ selected, result = .ok (.advanced selected) →
    selected.Sublist ((listed log).map Node.name)
  stalled_iff : ∀ name, result = .ok (.stalled name) ↔
    ∃ wait, (waits log).getLast? = some wait ∧ On name wait ∧ Expires wait
  failed_iff : ∀ failure, result = .error failure ↔
    ⟨.list, .error failure⟩ ∈ log ∨ (∃ name, ⟨.get name, .error failure⟩ ∈ log) ∨
      ∃ update ∈ updates log, Updates spec update (.error failure)

theorem Truthful.of_noop (hnoop : spec.isNoop = true) : Truthful spec [] (.ok .noTarget) where
  noTarget_iff := iff_of_true rfl hnoop
  silent _ := rfl
  steady := nofun
  advanced := nofun
  order _ := nofun
  stalled_iff := by simp [waits]
  failed_iff := by simp [updates, updatesFrom]

theorem exists_refused_iff {failure : Failure} :
    (∃ e ∈ log, e.refused? = some failure) ↔
      ⟨.list, .error failure⟩ ∈ log ∨ ∃ name, ⟨.get name, .error failure⟩ ∈ log := by
  constructor
  · rintro ⟨e, he, hrefused⟩
    match e with
    | ⟨.list, .error _⟩ =>
      cases hrefused
      exact .inl he
    | ⟨.get name, .error _⟩ =>
      cases hrefused
      exact .inr ⟨name, he⟩
  · rintro (he | ⟨name, he⟩)
    · exact ⟨_, he, rfl⟩
    · exact ⟨_, he, rfl⟩

/-- An update is told by its calls, the first of which holds the record that it began with. -/
theorem Updates.result_eq {update : List (Event Cluster)} {r r' : Except Failure Bool}
    (h : Updates spec update r) (h' : Updates spec update r') (hne : update ≠ []) : r = r' := by
  obtain ⟨node, hrun⟩ := h
  obtain ⟨node', hrun'⟩ := h'
  have hfirst : ∀ {node : Node} {r : Except Failure Bool},
      Runs (LabelUpdate.run node (selectPlan spec)).run update r →
      update.head?.map Event.call = some (.patch node (selectPlan spec node)) := by
    intro node r hrun
    rw [LabelUpdate.run, LabelUpdate.maxAttempts, LabelUpdate.attempt_succ] at hrun
    split at hrun
    · cases hrun
      exact absurd rfl hne
    · cases hrun
      rfl
  have hcall := Option.some.inj ((hfirst hrun).symm.trans (hfirst hrun'))
  obtain ⟨rfl, -⟩ := ClusterCall.patch.inj hcall
  exact hrun.result_eq hrun'

theorem Updates.ne_nil {update : List (Event Cluster)} {failure : Failure}
    (h : Updates spec update (.error failure)) : update ≠ [] := by
  rintro rfl
  obtain ⟨node, hrun⟩ := h
  have hnone := failed_of_update_nil hrun
  cases hnone

section Whole

variable {ws us : List (List (Event Cluster))} {stuck : Option String} {failure : Option Failure}

theorem Account.stuck_iff (h : Account spec log ws us stuck failure) :
    stuck = some name ↔
      ∃ wait, (waits log).getLast? = some wait ∧ On name wait ∧ Expires wait := by
  rw [h.waits_eq]
  exact h.ends.stuck_iff

theorem Account.failed_iff {f : Failure} (h : Account spec log ws us stuck failure) :
    failure = some f ↔
      ⟨.list, .error f⟩ ∈ log ∨ (∃ name, ⟨.get name, .error f⟩ ∈ log) ∨
        ∃ update ∈ updates log, Updates spec update (.error f) := by
  rw [← or_assoc, ← exists_refused_iff, h.updates_eq]
  constructor
  · exact h.cause f
  · rintro (⟨e, he, hrefused⟩ | ⟨update, hmem, hfailed⟩)
    · exact h.refused e he f hrefused
    · obtain ⟨result, hupdates, hresult⟩ := h.updated update hmem
      exact hresult f (hupdates.result_eq hfailed hfailed.ne_nil)

theorem stalled?_eq_some {result : Except Failure PassOutcome} :
    stalled? result = some name ↔ result = .ok (.stalled name) := by
  unfold stalled?
  split <;> simp_all

end Whole

theorem truthful_of_goes {result : Except Failure PassOutcome} (hnoop : spec.isNoop = false)
    (hgoes : Goes spec nodes (underWay spec nodes) events result)
    (hsettled : result = .ok .steady → Settled spec nodes events) :
    Truthful spec (⟨.list, .ok nodes⟩ :: events) result := by
  obtain ⟨ws, us, haccount, hend⟩ := hgoes.account
  have hwhole : Account spec (⟨.list, .ok nodes⟩ :: events) ws us (stalled? result)
      (failure? result) := haccount.cons nofun rfl rfl
  have hadvanced : ∀ selected, result = .ok (.advanced selected) → ws ≠ [] ∧
      Moves spec nodes (underWay spec nodes) (⟨.list, .ok nodes⟩ :: events) selected ws us := by
    intro selected hresult
    obtain ⟨hwaits, hmoves⟩ := hend selected hresult
    exact ⟨hwaits, hmoves.mono (List.Sublist.refl nodes) (List.suffix_cons _ events).isInfix⟩
  exact {
    noTarget_iff := iff_of_false hgoes.target (by simp [hnoop])
    silent := by simp [hnoop]
    steady := by
      intro hsteady
      obtain ⟨hquiet, hwaits⟩ := (hsettled hsteady).quiet
      exact ⟨List.forall_mem_cons.mpr ⟨rfl, hquiet⟩, hwaits, nodes, events, rfl, hsettled hsteady⟩
    advanced := by
      intro selected hresult
      obtain ⟨hwaits, hmoves⟩ := hadvanced selected hresult
      have hends := haccount.ends
      subst hresult
      rw [hwhole.waits_eq, hwhole.updates_eq]
      exact ⟨hwaits, hends.arrives, hmoves⟩
    order := by
      intro hnamed selected hresult
      obtain ⟨-, -, selections, -, -, hchosen, rfl⟩ := hadvanced selected hresult
      exact hchosen.names_sublist hnamed
    stalled_iff := fun name => stalled?_eq_some.symm.trans hwhole.stuck_iff
    failed_iff := fun failure => failure?_eq_some.symm.trans hwhole.failed_iff }

theorem truthful_of_refused {failure : Failure} (hnoop : spec.isNoop = false) :
    Truthful spec [⟨.list, .error failure⟩] (.error failure) := by
  have haccount : Account spec [⟨.list, .error failure⟩] [] [] none (some failure) :=
    .refusal nofun rfl rfl
  exact {
    noTarget_iff := by simp [hnoop]
    silent := by simp [hnoop]
    steady := nofun
    advanced := nofun
    order := fun _ => nofun
    stalled_iff := fun name => stalled?_eq_some.symm.trans haccount.stuck_iff
    failed_iff := fun f => failure?_eq_some.symm.trans haccount.failed_iff }

/-- The outcome of a pass tells the truth, whatever its calls are answered. -/
theorem run_truthful (config : OperatorConfig) (spec : Spec) {result : Except Failure PassOutcome}
    (hrun : Runs (run config.settings spec).run log result) : Truthful spec log result := by
  cases hnoop : spec.isNoop with
  | true =>
    have hdone : (run config.settings spec).run = .done (.ok .noTarget) := by
      simp only [run, hnoop]
      rfl
    rw [hdone] at hrun
    cases hrun
    exact .of_noop hnoop
  | false =>
    rw [run_eq hnoop] at hrun
    cases hrun with
    | ask answer hrest =>
      cases answer with
      | error failure =>
        cases hrest
        exact truthful_of_refused hnoop
      | ok nodes =>
        obtain ⟨hgoes, hsettled⟩ := afterList_of_runs (proper_settings config) hrest
        exact truthful_of_goes hnoop hgoes hsettled

section Sample

def sampleConfig : OperatorConfig where
  pollIntervalSeconds := 5
  completionTimeoutSeconds := 60
  defaultMaxUnavailable := 2
  healthPort := 8080
  metricsPort := 9090

/-- A worker that was marked in a pass before. -/
def markedSecondWorker : Node :=
  secondWorker.relabel (selectPlan Fleet.sampleSpec secondWorker) (some "2")

/-- The worker that was marked before is awaited, and another one is marked and upgraded. -/
def advancedLog : List (Event Cluster) := [
  ⟨.list, .ok [Fleet.oldWorker, markedSecondWorker]⟩,
  ⟨.now, 0⟩,
  ⟨.readUntil "w2" 0 60000, some (1, .ok { upgradedWorker with name := "w2" })⟩,
  ⟨.count (.waited .worker 1), ()⟩,
  ⟨.get "w1", .ok Fleet.oldWorker⟩,
  ⟨.patch Fleet.oldWorker (selectPlan Fleet.sampleSpec Fleet.oldWorker), .ok ()⟩,
  ⟨.count (.selected .worker), ()⟩,
  ⟨.now, 1⟩,
  ⟨.readUntil "w1" 1 60001, some (2, .ok upgradedWorker)⟩,
  ⟨.count (.waited .worker 1), ()⟩]

theorem runs_advancedLog :
    Runs (run sampleConfig.settings Fleet.sampleSpec).run advancedLog (.ok (.advanced ["w1"])) := by
  refine .ask _ (.ask _ ?_)
  unfold Wait.poll
  refine .ask _ (.ask _ (.ask _ (.ask _ (.ask _ (.ask _ ?_)))))
  unfold Wait.poll
  exact .ask _ (.ask _ (.done _))

/-- The worker that was only awaited is not among the selected ones. -/
theorem run_truthful_advanced :
    Truthful Fleet.sampleSpec advancedLog (.ok (.advanced ["w1"])) ∧
      (underWay Fleet.sampleSpec (listed advancedLog)).map Node.name = ["w2"] ∧
      (waits advancedLog).length = 2 ∧ (updates advancedLog).length = 1 :=
  ⟨run_truthful sampleConfig Fleet.sampleSpec runs_advancedLog, by decide, rfl, rfl⟩

end Sample

end Pass

end NodeRollout
