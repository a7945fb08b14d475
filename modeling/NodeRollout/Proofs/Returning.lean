import NodeRollout.Proofs.Progress

/-! A pass of a rollout that nothing holds up returns. Each of its calls is answered, as far as nobody
overtakes a write that was rejected four times and a marked node is at the target at the last read
before a deadline. Both can be kept to, wherever the rollout is: the record of a last attempt was read
just before, and a marked node may report the target at any time. -/
namespace NodeRollout

/-- The record of the node once it reports the target. -/
def Node.report (node : Node) (spec : Spec) (version : String) : Node :=
  { node with
    resourceVersion := some version
    osImage := spec.osVersion
    kubelet := spec.kubeVersion
    kubeProxy := spec.kubeVersion }

theorem Node.needsUpgrade_report (node : Node) (spec : Spec) (version : String) :
    (node.report spec version).needsUpgrade spec = false := by
  rw [Bool.eq_false_iff, ne_eq, needsUpgrade_iff]
  simp [report]

namespace Scene

variable {r : Roster} {spec : Spec} {settings : Settings} {s : Scene} {done todo : List String}

theorem drifts_of_report {nodes : History} {old new : Node} (hold : s.nodes.find? new.name = some old)
    (hadds : s.nodes.Adds (.stored new) nodes) (hrole : new.isControlPlane = old.isControlPlane)
    (hmarker : new.marker? = old.marker?) (hat : new.needsUpgrade spec = false)
    (hmarked : new.name ∈ s.marked) : Drifts spec s { s with nodes := nodes } := by
  have hselected : new.isSelectedFor spec = old.isSelectedFor spec := by
    rw [Bool.eq_iff_iff, Node.isSelectedFor_iff, Node.isSelectedFor_iff, hmarker]
  refine ⟨rfl, rfl, ?_, ?_⟩
  · intro name hnone
    rw [hadds.find?_stored]
    split
    next hname =>
      rw [hname, hold] at hnone
      cases hnone
    next => exact hnone
  · intro name node hnode
    rw [hadds.find?_stored]
    split
    next hname =>
      subst hname
      obtain rfl := Option.some.inj (hold.symm.trans hnode)
      refine ⟨new, rfl, hrole, ?_, fun _ => .inr hat, fun _ => hat, fun _ _ => hmarked⟩
      exact fun h => hselected ▸ h
    next =>
      refine ⟨node, hnode, rfl, id, .inl, id, ?_⟩
      intro hneeds hat'
      simp [hneeds] at hat'

/-- A marked node can report the target. -/
theorem At.exists_landing {name : String} (hs : s.At r spec done todo) (hname : name ∈ done) :
    ∃ t, Drifts spec s t ∧ t.nodes.AtTarget spec name := by
  have htarget : name ∈ r.targets spec := hs.split ▸ List.mem_append_left todo hname
  obtain ⟨old, hold, -⟩ := hs.stored name (Roster.mem_targets.mp htarget).1
  obtain rfl := History.name_of_find? hold
  obtain ⟨version, hfresh⟩ := s.nodes.exists_fresh_version
  have hnew : ∀ other ∈ s.nodes.records, (old.report spec version).name = other.name →
      (old.report spec version).resourceVersion ≠ other.resourceVersion :=
    fun other hother _ heq => hfresh other hother heq.symm
  have hat := old.needsUpgrade_report spec version
  have hadds : s.nodes.Adds (.stored (old.report spec version))
      (s.nodes.store (old.report spec version) rfl hnew) := rfl
  have hold' : s.nodes.find? (old.report spec version).name = some old := hold
  refine ⟨_, drifts_of_report hold' hadds rfl rfl hat (hs.marked ▸ hname), ?_⟩
  intro node hnode
  have hstored := hadds.find?_stored old.name
  rw [if_pos (by rfl)] at hstored
  obtain rfl := Option.some.inj (hnode.symm.trans hstored)
  exact hat

theorem map_name_filterMap_find? {h : History} {names : List String}
    (hstored : ∀ name ∈ names, ∃ node, h.find? name = some node) :
    (names.filterMap h.find?).map Node.name = names := by
  induction names with
  | nil => rfl
  | cons name names ih =>
    obtain ⟨⟨node, hnode⟩, hrest⟩ := List.forall_mem_cons.mp hstored
    rw [List.filterMap_cons_some hnode, List.map_cons, ih hrest, History.name_of_find? hnode]

/-- The stored nodes can be listed in the order of the roster. -/
theorem At.exists_list (hs : s.At r spec done todo) :
    ∃ nodes, nodes.map Node.name = r.order ∧ s.nodes.IsSnapshot nodes := by
  have hnames : (r.order.filterMap s.nodes.find?).map Node.name = r.order := by
    refine map_name_filterMap_find? fun name hname => ?_
    obtain ⟨node, hnode, -⟩ := hs.stored name hname
    exact ⟨node, hnode⟩
  refine ⟨_, hnames, hnames.symm ▸ r.nodup, fun node => ?_⟩
  rw [List.mem_filterMap]
  constructor
  · rintro ⟨name, -, hnode⟩
    exact History.find?_name hnode
  · intro hnode
    refine ⟨node.name, ?_, hnode⟩
    by_contra habsent
    rw [hs.absent node.name habsent] at hnode
    cases hnode

end Scene

namespace Pass

open Scene

variable {r : Roster} {spec : Spec} {settings : Settings} {s : Scene} {done todo : List String}

/-- A label update returns. Before the last attempt the record in hand is the stored one. -/
theorem returns_attempt_rolling {name : String} (horder : name ∈ r.order) (n : Nat) {node : Node}
    (hs : s.At r spec done todo) (hcount : s.rejections + n = LabelUpdate.maxAttempts)
    (hheld : n = 1 → s.nodes.find? node.name = some node) :
    Returns (rolling r.order settings spec) (Promise settings spec)
      (LabelUpdate.attempt (selectPlan spec) name n node).run s := by
  -- induction over the attempts: each but the last may be rejected, and then the node is read
  induction n generalizing node s with
  | zero => exact .done
  | succ n ih =>
    rw [LabelUpdate.attempt_succ]
    split
    next => exact .done
    next =>
      refine .ask ⟨s, Drifts.refl spec s, fun hlast => hheld (by omega)⟩ ?_ ?_
      · intro t ht hpromise
        by_cases hfew : t.rejections + 1 < LabelUpdate.maxAttempts
        · exact ⟨.error (.conflict name), { t with rejections := t.rejections + 1 },
            .inr ⟨⟨name, rfl⟩, hfew, rfl⟩⟩
        · have hlast : t.rejections + 1 = LabelUpdate.maxAttempts := by
            rw [ht.2.1] at hfew ⊢
            omega
          obtain ⟨nodes, hw⟩ := History.exists_writes (selectPlan spec node) (hpromise hlast)
          exact ⟨.ok (), ⟨nodes, t.marked ++ [node.name], 0⟩, .inl ⟨rfl, hw, rfl, rfl⟩⟩
      · rintro t ht answer u (⟨rfl, -⟩ | ⟨⟨refused, rfl⟩, -, rfl⟩)
        · exact .done
        · have hat := hs.drifts ht
          have hat' : At r spec done todo { t with rejections := t.rejections + 1 } :=
            ⟨hat.marked, hat.split, hat.stored, hat.absent⟩
          refine .ask_freely (fun _ => trivial) ?_ ?_
          · intro v hv
            obtain ⟨stored, hstored, -⟩ := (hat'.drifts hv).stored name horder
            exact ⟨.ok stored, v, rfl, stored, rfl, hstored⟩
          · rintro v hv answer w ⟨rfl, stored, rfl, hstored⟩
            have hrejections : w.rejections = t.rejections + 1 := hv.2.1
            refine ih (hat'.drifts hv) ?_ fun _ => History.find?_name hstored
            rw [hrejections, ht.2.1]
            omega

theorem returns_get_rolling {name : String} (hs : s.At r spec done todo) (horder : name ∈ r.order) :
    Returns (rolling r.order settings spec) (Promise settings spec) (Cluster.get name).run s := by
  refine .ask_freely (fun _ => trivial) ?_ fun _ _ _ _ _ => .done
  intro t ht
  obtain ⟨node, hnode, -⟩ := (hs.drifts ht).stored name horder
  exact ⟨.ok node, t, rfl, node, rfl, hnode⟩

theorem returns_select_rolling {node : Node} {name : String}
    (hs : Ready r spec done (name :: todo) s) (hlanded : s.Landed spec) (hname : node.name = name)
    (hnode : node.isSelectedFor spec = false) (horder : name ∈ r.order) :
    Returns (rolling r.order settings spec) (Promise settings spec) (select spec node).run s := by
  have hupdate : Returns (rolling r.order settings spec) (Promise settings spec)
      (LabelUpdate.run node (selectPlan spec)).run s :=
    returns_attempt_rolling (hname ▸ horder) LabelUpdate.maxAttempts hs.1
      (by rw [hs.2, Nat.zero_add]) nofun
  refine .attempt hupdate (assures_update_rolling settings hs hlanded hname hnode horder) ?_
  rintro t written ⟨hwritten, -⟩
  obtain rfl := Except.ok.inj hwritten
  exact .ask_freely (fun _ => trivial) (fun u _ => ⟨(), u, rfl⟩) fun _ _ _ _ _ => .done

/-- The polling for the node that was marked last returns. A read that is not the last one may show
anything, and at the last one the node is at the target. -/
theorem returns_poll_rolling (hinterval : 0 < settings.pollInterval) {name : String}
    (hs : Ready r spec done todo s) (hlast : done.getLast? = some name) {deadline tick : Nat}
    (htick : tick < deadline) :
    Returns (rolling r.order settings spec) (Promise settings spec)
      (Wait.poll name spec settings.pollInterval deadline tick) s := by
  induction tick using Wait.poll.induct settings.pollInterval deadline generalizing s with
  | case1 tick hscheduled ih =>
    rw [Wait.poll, dif_pos hscheduled]
    refine .ask ?_ ?_ ?_
    · obtain ⟨t, ht, hat⟩ := hs.1.exists_landing (List.mem_of_getLast? hlast)
      exact ⟨t, ht, fun _ => hat⟩
    · intro t ht hpromise
      have hmarked : name ∈ r.targets spec :=
        hs.1.split ▸ List.mem_append_left todo (List.mem_of_getLast? hlast)
      obtain ⟨node, hnode, -⟩ := (hs.1.drifts ht).stored name (Roster.mem_targets.mp hmarked).1
      refine ⟨some (tick, .ok node), t, rfl, tick, .ok node, rfl, ?_, ?_⟩
      · rintro _ ⟨⟩
        exact hnode
      · by_cases hlater : tick + settings.pollInterval < deadline
        · refine .inr ?_
          simpa [Wait.nextTick] using hlater
        · refine .inl ?_
          rw [Wait.reached, hpromise (Nat.le_of_not_lt hlater) node hnode]
          rfl
    · rintro t ht answer u ⟨rfl, ended, read, rfl, -, hprompt⟩
      dsimp only
      split
      next => exact .done
      next hbehind => exact ih ended (hs.drifts ht) (hprompt.resolve_left hbehind)
  | case2 tick hscheduled => exact absurd ⟨htick, hinterval⟩ hscheduled

theorem returns_await_rolling (hinterval : 0 < settings.pollInterval)
    (htimeout : 0 < settings.completionTimeout) {node : Node} (hs : Ready r spec done todo s)
    (hlast : done.getLast? = some node.name) :
    Returns (rolling r.order settings spec) (Promise settings spec) (await settings spec node) s := by
  have hdecides : Wait.Decides (rolling r.order settings spec) (Kept r spec) settings node.name spec
      (Ready r spec done todo) _ := decides_ready hinterval node.name
  have hwait : Returns (rolling r.order settings spec) (Promise settings spec)
      (Wait.run settings node.name spec) s := by
    rw [Wait.run, if_neg (Nat.ne_of_gt hinterval)]
    refine .call_freely (fun _ => trivial) (fun t _ => ⟨(0 : Nat), t, rfl⟩) ?_
    rintro t ht started u rfl
    have hpoll := returns_poll_rolling hinterval (hs.drifts ht) hlast
      (Nat.lt_add_of_pos_right (n := started) htimeout)
    exact .bind hpoll (Wait.assures_poll hdecides _ _ _ (hs.drifts ht)) fun _ _ _ => .done
  refine .bind hwait (Wait.assures_run hdecides hs) fun t elapsed _ => ?_
  cases elapsed <;>
    exact .ask_freely (fun _ => trivial) (fun u _ => ⟨(), u, rfl⟩) fun _ _ _ _ _ => .done

theorem returns_selectBatch_rolling (hinterval : 0 < settings.pollInterval)
    (htimeout : 0 < settings.completionTimeout) (room : Nat) (nodes : List Node)
    (hnames : nodes.map Node.name = todo) (horder : ∀ name ∈ todo, name ∈ r.order)
    (hs : Ready r spec done todo s) (hlanded : s.Landed spec) :
    Returns (rolling r.order settings spec) (Promise settings spec)
      (selectBatch settings spec room nodes).run s := by
  induction nodes generalizing room done todo s with
  | nil => cases room <;> exact .done
  | cons listed rest ih =>
    subst hnames
    rw [List.map_cons] at hs horder
    cases room with
    | zero => exact .done
    | succ room =>
      rw [selectBatch]
      have hlisted : listed.name ∈ r.order := horder _ List.mem_cons_self
      have hrest : ∀ name ∈ rest.map Node.name, name ∈ r.order :=
        fun name hname => horder name (List.mem_cons_of_mem _ hname)
      refine .attempt (returns_get_rolling hs.1 hlisted)
        (assures_get_rolling settings hs hlanded hlisted) ?_
      rintro t node ⟨_, ⟨⟩, hname, hcandidate, hready, hlanded'⟩
      obtain ⟨hplain, hneeds⟩ := Bool.and_eq_true_iff.mp hcandidate
      have hplain' : node.isSelectedFor spec = false := by simpa using hplain
      rw [hneeds]
      refine .attempt (returns_select_rolling hready hlanded' hname hplain' hlisted)
        (assures_select_rolling settings hready hlanded' hname hplain' hlisted) ?_
      rintro u _ ⟨-, hmarked⟩
      have hlast : (done ++ [listed.name]).getLast? = some node.name := by
        rw [List.getLast?_concat, hname]
      refine .lift (returns_await_rolling hinterval htimeout hmarked hlast)
        (assures_await_rolling hinterval hmarked hlast) ?_
      rintro v reached ⟨rfl, hnext, hland⟩
      exact .attempt (ih room rfl hrest hnext hland)
        (assures_selectBatch_rolling hinterval room rest rfl hrest hnext hland) fun _ _ _ => .done

/-- The waits for nodes that were each marked last return. -/
theorem returns_awaitAll_rolling (hinterval : 0 < settings.pollInterval)
    (htimeout : 0 < settings.completionTimeout) (nodes : List Node) (hs : Ready r spec done todo s)
    (hlast : ∀ node ∈ nodes, done.getLast? = some node.name) :
    Returns (rolling r.order settings spec) (Promise settings spec)
      (awaitAll settings spec nodes) s := by
  induction nodes generalizing s with
  | nil => exact .done
  | cons node rest ih =>
    obtain ⟨hnode, hrest⟩ := List.forall_mem_cons.mp hlast
    refine .bind (returns_await_rolling hinterval htimeout hs hnode)
      (assures_await_rolling hinterval hs hnode) ?_
    rintro t reached ⟨rfl, hready, -⟩
    exact ih hready hrest

theorem returns_awaitLast_rolling (hinterval : 0 < settings.pollInterval)
    (htimeout : 0 < settings.completionTimeout) {node : Node} (selected : List String)
    (hs : Ready r spec done todo s) (hlast : done.getLast? = some node.name) :
    Returns (rolling r.order settings spec) (Promise settings spec)
      (awaitLast settings spec node selected) s := by
  refine .bind (returns_await_rolling hinterval htimeout hs hlast)
    (assures_await_rolling hinterval hs hlast) ?_
  rintro t reached ⟨rfl, -⟩
  exact .done

theorem returns_controlPlaneTier_rolling (hinterval : 0 < settings.pollInterval)
    (htimeout : 0 < settings.completionTimeout) {nodes : List Node}
    (hcandidates :
      (nodes.filter (·.isCandidate spec)).map Node.name = todo.filter r.isControlPlane)
    (hway : ∀ node ∈ nodes, node.isUnderWay spec = true → done.getLast? = some node.name)
    (horder : ∀ name ∈ todo, name ∈ r.order) (hs : Ready r spec done todo s)
    (hidle : todo.filter r.isControlPlane ≠ [] →
      (∀ node ∈ nodes, node.isUnderWay spec = false) → s.Landed spec) :
    Returns (rolling r.order settings spec) (Promise settings spec)
      (controlPlaneTier settings spec nodes).run s := by
  unfold controlPlaneTier
  split
  next node hfind =>
    have hnodeWay : node.isUnderWay spec = true := by simpa using List.find?_some hfind
    have hlast := hway node (List.mem_of_find?_eq_some hfind) hnodeWay
    exact .lift (returns_awaitLast_rolling hinterval htimeout [] hs hlast)
      (assures_awaitLast_rolling hinterval [] hs hlast) fun _ _ _ => .done
  next hnone =>
    split
    next node hfind =>
      obtain ⟨rest, rfl, hlanded, hplain, -⟩ :=
        next_controlPlane hs.1 hcandidates hidle hnone hfind
      have hname := horder _ List.mem_cons_self
      refine .attempt (returns_select_rolling hs hlanded rfl hplain hname)
        (assures_select_rolling settings hs hlanded rfl hplain hname) ?_
      rintro t _ ⟨-, hmarked⟩
      have hlast : (done ++ [node.name]).getLast? = some node.name := List.getLast?_concat
      exact .lift (returns_awaitLast_rolling hinterval htimeout [node.name] hmarked hlast)
        (assures_awaitLast_rolling hinterval [node.name] hmarked hlast) fun _ _ _ => .done
    next => exact .done

theorem returns_workerTier_rolling (hinterval : 0 < settings.pollInterval)
    (htimeout : 0 < settings.completionTimeout) {workers : List Node}
    (hcandidates : (workers.filter (·.isCandidate spec)).map Node.name = todo)
    (hway : ∀ node ∈ workers, node.isUnderWay spec = true → done.getLast? = some node.name)
    (horder : ∀ name ∈ todo, name ∈ r.order) (hs : Ready r spec done todo s)
    (hidle : (∀ node ∈ workers, node.isUnderWay spec = false) → s.Landed spec) :
    Returns (rolling r.order settings spec) (Promise settings spec)
      (workerTier settings spec workers).run s := by
  have hlast : ∀ node ∈ workers.filter (·.isUnderWay spec), done.getLast? = some node.name := by
    intro node hnode
    obtain ⟨hmem, hnodeWay⟩ := List.mem_filter.mp hnode
    exact hway node hmem hnodeWay
  refine .lift (returns_awaitAll_rolling hinterval htimeout _ hs hlast)
    (assures_underWay_rolling hinterval hway hs hidle) ?_
  rintro t stuck ⟨rfl, hready, hlanded⟩
  refine .attempt
    (returns_selectBatch_rolling hinterval htimeout _ _ hcandidates horder hready hlanded)
    (assures_selectBatch_rolling hinterval _ _ hcandidates horder hready hlanded) ?_
  rintro u ⟨selected, stuck⟩ ⟨hselected, -⟩
  obtain ⟨rfl, rfl⟩ := Prod.mk.inj (Except.ok.inj hselected)
  dsimp only
  split <;> exact .done

/-- A pass returns, wherever the rollout is. -/
theorem returns_run_rolling {limit : Nat} (hsound : Sound settings spec limit)
    (hs : Ready r spec done todo s) :
    Returns (rolling r.order settings spec) (Promise settings spec) (run settings spec).run s := by
  have hlist : Returns (rolling r.order settings spec) (Promise settings spec)
      Cluster.list.run s := by
    refine .ask_freely (fun _ => trivial) ?_ fun _ _ _ _ _ => .done
    intro t ht
    obtain ⟨nodes, hnames, hsnapshot⟩ := (hs.drifts ht).1.exists_list
    exact ⟨.ok nodes, t, rfl, nodes, rfl, hnames, hsnapshot⟩
  have horder : ∀ name ∈ todo, name ∈ r.order := fun name => hs.1.mem_order
  unfold run
  rw [hsound.target]
  refine .attempt hlist (assures_list_rolling settings hs) ?_
  rintro t nodes ⟨_, ⟨⟩, hsurvey⟩
  have hway : ∀ {p : Node → Bool}, ∀ node ∈ nodes.filter p, node.isUnderWay spec = true →
      done.getLast? = some node.name :=
    fun node hnode => hsurvey.listed.underWay node (List.mem_filter.mp hnode).1
  split
  next => exact .done
  next =>
    rw [List.partition_eq_filter_filter]
    have htier := assures_controlPlaneTier_rolling hsound.interval stable_idle
      hsurvey.listed.controlPlane hway horder hsurvey.ready hsurvey.idle
      hsurvey.landed_of_controlPlane
    refine .attempt (returns_controlPlaneTier_rolling hsound.interval hsound.timeout
      hsurvey.listed.controlPlane hway horder hsurvey.ready hsurvey.landed_of_controlPlane) htier ?_
    intro u outcome hu
    cases outcome with
    | some outcome => exact .done
    | none =>
      obtain ⟨hworkers, hnone, hready, hidle⟩ := hu
      exact returns_workerTier_rolling hsound.interval hsound.timeout
        (hsurvey.listed.map_workers hworkers) hway horder hready
        fun hrest => hidle (idle_of_tiers hnone hrest)

end Pass

end NodeRollout
