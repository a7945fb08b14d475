import NodeRollout.Proofs.Marking

/-! A pass marks nodes in the order of the rollout, judged by the nodes as they are at the moment of
each write and not by the list that the pass began with. That list may be old, but while others keep
calm what it rules out stays ruled out. -/
namespace NodeRollout

namespace History

variable {spec : Spec} {h h' : History} {name : String}

def AtTarget (spec : Spec) (name : String) (h : History) : Prop :=
  ∀ node, h.find? name = some node → node.needsUpgrade spec = false

/-- The control-plane nodes are at the target, and no node at all is under way. -/
def NoneUnderWay (spec : Spec) (h : History) : Prop :=
  h.ControlPlaneDone spec ∧ ∀ other node, h.find? other = some node → node.isUnderWay spec = false

theorem Calm.atTarget (hcalm : Calm spec h h') (hat : h.AtTarget spec name) :
    h'.AtTarget spec name := by
  intro new hnew
  obtain ⟨old, hold, -, -, hneeds⟩ := hcalm name new hnew
  by_contra hne
  have hbehind : old.needsUpgrade spec = true := hneeds (by simpa using hne)
  simp [hat old hold] at hbehind

theorem Calm.underWay {other : String} {new : Node} (hcalm : Calm spec h h')
    (hnew : h'.find? other = some new) (hway : new.isUnderWay spec = true) :
    ∃ old, h.find? other = some old ∧ new.isControlPlane = old.isControlPlane ∧
      old.isUnderWay spec = true := by
  rw [Node.isUnderWay, Bool.and_eq_true] at hway
  obtain ⟨old, hold, hrole, hselected, hneeds⟩ := hcalm.selected hnew hway.1
  exact ⟨old, hold, hrole, by simp [Node.isUnderWay, hselected, hneeds hway.2]⟩

theorem Calm.noneUnderWay (hcalm : Calm spec h h') (hnone : h.NoneUnderWay spec) :
    h'.NoneUnderWay spec := by
  refine ⟨(hcalm.marks "").controlPlaneDone hnone.1, ?_⟩
  intro other new hnew
  by_contra hne
  obtain ⟨old, hold, -, hway⟩ := hcalm.underWay hnew (by simpa using hne)
  simp [hnone.2 other old hold] at hway

theorem NoneUnderWay.only (hnone : h.NoneUnderWay spec) (name : String) :
    h.OnlyUnderWay spec name :=
  ⟨hnone.1, fun other node hnode hway => by simp [hnone.2 other node hnode] at hway⟩

/-- Once the only node under way is at the target, none is. -/
theorem OnlyUnderWay.none (honly : h.OnlyUnderWay spec name) (hat : h.AtTarget spec name) :
    h.NoneUnderWay spec := by
  refine ⟨honly.1, ?_⟩
  intro other node hnode
  by_contra hne
  have hway : node.isUnderWay spec = true := by simpa using hne
  obtain rfl := honly.2 other node hnode hway
  simp [Node.isUnderWay, hat node hnode] at hway

theorem stable_calmly {K : History → Prop} (hK : ∀ {h h'}, Calm spec h h' → K h → K h') :
    Stable (calmly spec) K where
  others := hK
  calls hc hs h := hK (calm_of_serves hc hs) h

theorem Writes.marks {seen : Node} (hw : h.Writes seen (Pass.selectPlan spec seen) h')
    (hseen : seen.isSelectedFor spec = false) : Marks spec seen.name h h' := by
  intro other new hnew
  obtain ⟨old, version, hold, hafter⟩ := hw.find?
  rw [hafter] at hnew
  split at hnew
  next hname =>
    obtain rfl := Option.some.inj hnew
    obtain ⟨hselection, hrole⟩ := Pass.get?_selectPlan hseen
    refine ⟨old, hname ▸ hold, Node.relabel_isControlPlane hrole, ?_, id⟩
    intro value hvalue
    rw [Node.relabel_marker? hselection] at hvalue
    exact .inr ⟨hname, (Option.some.inj hvalue).symm⟩
  next => exact ⟨new, hnew, rfl, fun _ => .inl, id⟩

end History

namespace Pass

open History

variable {spec : Spec} {h : History}

theorem proceeds_of_serves {c : ClusterCall} {answer : c.Answer} {h' : History}
    (hc : c.isWrite = false) (hs : (calmly spec).Serves h c answer h') : Proceeds spec h h' :=
  .inl (calm_of_serves hc hs)

/-- A selection marks its node while the order permits it; what outlasts the mark outlasts it. -/
theorem assures_select {K : History → Prop} {node : Node}
    (hcalm : ∀ {h h'}, Calm spec h h' → K h → K h')
    (hmarks : ∀ {h h'}, Marks spec node.name h h' → K h → K h')
    (hmay : ∀ {h}, K h → h.MayMark spec node.name) (hs : K h) :
    Assures (calmly spec) (across (Proceeds spec)) (select spec node).run (fun h _ => K h) h := by
  have hupdate : Assures (calmly spec) (across (Proceeds spec))
      (LabelUpdate.run node (selectPlan spec)).run (fun h _ => K h) h := by
    refine LabelUpdate.assures_attempt (P := fun seen => seen.name = node.name)
      (K := fun _ => K) hcalm hcalm id (fun _ h _ => h) ?_ ?_ LabelUpdate.maxAttempts rfl hs
    · intro n s seen answer t hname hK hplan hserves
      have hseen : seen.isSelectedFor spec = false := isEmpty_selectPlan.symm.trans hplan
      have hstep : Proceeds spec s t ∧ K t := by
        rcases hserves with hw | ⟨rfl, -⟩
        · have hm : Marks spec node.name s t := hname ▸ hw.marks hseen
          exact ⟨.inr ⟨node.name, hmay hK, hm⟩, hmarks hm hK⟩
        · exact ⟨.inl (Calm.refl spec t), hK⟩
      refine ⟨hstep.1, ?_⟩
      split <;> exact hstep.2
    · intro n s answer t hK hserves
      have hKt : K t := hcalm (calm_of_serves rfl hserves) hK
      refine ⟨proceeds_of_serves rfl hserves, ?_⟩
      cases answer with
      | ok seen => exact ⟨name_of_find? (hserves.2 seen rfl), hKt⟩
      | error failure => exact hKt
  exact assures_select_of_update (stable_calmly hcalm) (fun hc hs _ => proceeds_of_serves hc hs)
    hupdate

/-- A wait leaves everything as it is; when it succeeds, its node is at the target. -/
theorem decides_calmly (settings : Settings) {K : History → Prop}
    (hcalm : ∀ {h h'}, Calm spec h h' → K h → K h') (name : String) :
    Wait.Decides (calmly spec) (across (Proceeds spec)) settings name spec K
      (fun reached h => reached = true → h.AtTarget spec name) where
  stable := stable_calmly hcalm
  lasts reached := stable_calmly fun hc h hreached => hc.atTarget (h hreached)
  calls hc hs _ := proceeds_of_serves hc hs
  read := by
    intro h start deadline ended node t hserves hneeds _ _ found hfound
    obtain ⟨rfl, hread⟩ := hserves
    obtain rfl := Option.some.inj (hfound.symm.trans (hread ended node rfl))
    exact hneeds
  late _ _ := nofun
  asleep _ _ := nofun
  unscheduled _ _ := nofun

theorem assures_awaitLast (settings : Settings) (node : Node) (selected : List String) :
    Assures (calmly spec) (across (Proceeds spec)) (awaitLast settings spec node selected)
      (fun _ _ => True) h := by
  have w : Wait.Decides (calmly spec) _ settings node.name spec (fun _ => True) _ :=
    decides_calmly settings (fun _ _ => trivial) node.name
  exact assures_awaitLast_of_decides selected w trivial

theorem assures_selectBatch (settings : Settings) (room : Nat) (nodes : List Node)
    (hnone : h.NoneUnderWay spec) :
    Assures (calmly spec) (across (Proceeds spec)) (selectBatch settings spec room nodes).run
      (fun _ _ => True) h := by
  -- induction over the workers: each is marked while no node is under way, and awaited before the
  -- next one, so that again none is
  induction nodes generalizing room h with
  | nil => cases room <;> exact Assures.done fun _ _ => trivial
  | cons listed rest ih =>
    cases room with
    | zero => exact Assures.done fun _ _ => trivial
    | succ room =>
      rw [selectBatch]
      refine Assures.attempt (Assures.ask fun t ht answer u hu => ?_)
      refine ⟨proceeds_of_serves rfl hu, Assures.done fun v hv => ?_⟩
      have hv' := hv.noneUnderWay ((calm_of_serves rfl hu).noneUnderWay (ht.noneUnderWay hnone))
      cases answer with
      | error failure => exact fun _ _ => trivial
      | ok node =>
        dsimp only
        split
        · exact Assures.done fun _ _ => trivial
        · have hselect := assures_select (K := OnlyUnderWay spec node.name)
            (fun hc => (hc.marks node.name).onlyUnderWay) Marks.onlyUnderWay
            OnlyUnderWay.mayMark (hv'.only node.name)
          refine Assures.attempt (hselect.mono fun w r hw => ?_)
          cases r with
          | error failure => exact fun _ _ => trivial
          | ok =>
            have hdecides := decides_calmly settings (K := OnlyUnderWay spec node.name)
              (fun hc => (hc.marks node.name).onlyUnderWay) node.name
            refine Assures.lift ((assures_await hdecides hw).mono fun x reached hx => ?_)
            cases reached with
            | false => exact Assures.done fun _ _ => trivial
            | true =>
              refine Assures.attempt ((ih room (hx.1.none (hx.2 rfl))).mono fun y r _ => ?_)
              cases r with
              | ok => exact Assures.done fun _ _ => trivial
              | error failure => exact fun _ _ => trivial

theorem assures_workerTier (settings : Settings) {listed : History} {nodes workers : List Node}
    (hlist : listed.IsSnapshot nodes) (hdone : listed.ControlPlaneDone spec)
    (hworkers : ∀ node ∈ nodes, node.isControlPlane = false → node ∈ workers)
    (hcalm : Calm spec listed h) :
    Assures (calmly spec) (across (Proceeds spec)) (workerTier settings spec workers).run
      (fun _ _ => True) h := by
  have hdecides := fun node : Node => decides_calmly settings (K := Calm spec listed)
    (fun hc h => h.trans hc) node.name
  have hawait := assures_awaitAll hdecides (workers.filter (·.isUnderWay spec)) hcalm
  refine Assures.lift (hawait.mono fun t stuck ht => ?_)
  cases stuck with
  | some node => exact Assures.done fun _ _ => trivial
  | none =>
    have hnone : t.NoneUnderWay spec := by
      refine ⟨(ht.1.marks "").controlPlaneDone hdone, ?_⟩
      intro other new hnew
      by_contra hne
      -- a node under way now was so in the list, and its wait has succeeded since
      have hway : new.isUnderWay spec = true := by simpa using hne
      obtain ⟨old, hold, -, hway'⟩ := ht.1.underWay hnew hway
      have hname : old.name = other := name_of_find? hold
      have hrole : old.isControlPlane = false := by
        by_contra hrole
        have hat := hdone other old hold (by simpa using hrole)
        simp [Node.isUnderWay, hat] at hway'
      have hmem : old ∈ nodes := (hlist.2 old).mpr (find?_name hold)
      have hawaited := ht.2 old (List.mem_filter.mpr ⟨hworkers old hmem hrole, hway'⟩) rfl
      simp [Node.isUnderWay, hawaited new (hname ▸ hnew)] at hway
    refine Assures.attempt ((assures_selectBatch settings _ _ hnone).mono fun u r _ => ?_)
    cases r with
    | error failure => exact fun _ _ => trivial
    | ok batch =>
      obtain ⟨selected, stuck⟩ := batch
      cases stuck with
      | some name => exact Assures.done fun _ _ => trivial
      | none =>
        dsimp only
        split <;> exact Assures.done fun _ _ => trivial

/-- A control-plane candidate of the list may be marked while none of the list is under way. -/
theorem mayMark_of_list {listed : History} {nodes : List Node} {node : Node}
    (hlist : listed.IsSnapshot nodes) (hcalm : Calm spec listed h)
    (hnone : ∀ n ∈ nodes.filter (·.isControlPlane), n.isUnderWay spec = false)
    (hnode : node ∈ nodes.filter (·.isControlPlane)) : h.MayMark spec node.name := by
  obtain ⟨hmem, hrole⟩ := List.mem_filter.mp hnode
  refine ⟨?_, ?_⟩
  · intro other new hnew hcp hway
    obtain ⟨old, hold, hsame, hway'⟩ := hcalm.underWay hnew hway
    have hold' : old ∈ nodes.filter (·.isControlPlane) :=
      List.mem_filter.mpr ⟨(hlist.2 old).mpr (find?_name hold), hsame.symm.trans hcp⟩
    simp [hnone old hold'] at hway'
  · intro new hnew hworker
    obtain ⟨old, hold, hsame, -, -⟩ := hcalm node.name new hnew
    obtain rfl := Option.some.inj (hold.symm.trans ((hlist.2 node).mp hmem))
    simp [← hsame, hworker] at hrole

/-- The control-plane tier; when it goes on to the workers, the list showed it done. -/
theorem assures_controlPlaneTier (settings : Settings) {listed : History} {nodes : List Node}
    (hlist : listed.IsSnapshot nodes) (hcalm : Calm spec listed h) :
    Assures (calmly spec) (across (Proceeds spec))
      (controlPlaneTier settings spec (nodes.filter (·.isControlPlane))).run
      (fun h r => r = .ok none → Calm spec listed h ∧ listed.ControlPlaneDone spec) h := by
  unfold controlPlaneTier
  split
  next node hfind =>
    refine Assures.lift ((assures_awaitLast settings node []).mono fun t outcome _ => ?_)
    exact Assures.done fun _ _ => by simp
  next hnone =>
    have hnone' : ∀ n ∈ nodes.filter (·.isControlPlane), n.isUnderWay spec = false :=
      fun n hn => by simpa using List.find?_eq_none.mp hnone n hn
    split
    next node hfind =>
      have hmay := mayMark_of_list hlist hcalm hnone' (List.mem_of_find?_eq_some hfind)
      have hselect := assures_select (K := MayMark spec node.name)
        (fun hc => (hc.marks node.name).mayMark) Marks.mayMark id hmay
      refine Assures.attempt (hselect.mono fun t r _ => ?_)
      cases r with
      | error failure => exact fun _ _ => by simp
      | ok =>
        refine Assures.lift ((assures_awaitLast settings node _).mono fun u outcome _ => ?_)
        exact Assures.done fun _ _ => by simp
    next hcandidate =>
      refine Assures.done fun t ht => fun _ => ⟨hcalm.trans ht, ?_⟩
      intro name node hnode hrole
      by_contra hne
      -- a node behind the target is under way or a candidate, and the list has neither
      have hmem : node ∈ nodes.filter (·.isControlPlane) :=
        List.mem_filter.mpr ⟨(hlist.2 node).mpr (find?_name hnode), hrole⟩
      have hneeds : node.needsUpgrade spec = true := by simpa using hne
      have hway := hnone' node hmem
      have hcand := List.find?_eq_none.mp hcandidate node hmem
      cases hselected : node.isSelectedFor spec with
      | true => simp [Node.isUnderWay, hselected, hneeds] at hway
      | false => simp [Node.isCandidate, hselected, hneeds] at hcand

/-- Every call of a pass keeps calm, or marks one node that the order permits to mark. -/
theorem assures_run (settings : Settings) (spec : Spec) (h : History) :
    Assures (calmly spec) (across (Proceeds spec)) (run settings spec).run (fun _ _ => True) h := by
  unfold run
  split
  · exact Assures.done fun _ _ => trivial
  · refine Assures.attempt (Assures.ask fun t ht answer u hu => ?_)
    refine ⟨proceeds_of_serves rfl hu, Assures.done fun v hv => ?_⟩
    cases answer with
    | error failure => exact fun _ _ => trivial
    | ok nodes =>
      dsimp only
      split
      · exact Assures.done fun _ _ => trivial
      · rw [List.partition_eq_filter_filter]
        obtain ⟨rfl, hsnapshot⟩ := hu
        have hlist := hsnapshot nodes rfl
        refine Assures.attempt
          ((assures_controlPlaneTier settings hlist hv).mono fun w r hw => ?_)
        match r, hw with
        | .error failure, _ => exact fun _ _ => trivial
        | .ok (some outcome), _ => exact Assures.done fun _ _ => trivial
        | .ok none, hw =>
          obtain ⟨hcalm, hdone⟩ := hw rfl
          refine assures_workerTier settings hlist hdone ?_ hcalm
          intro node hmem hrole
          exact List.mem_filter.mpr ⟨hmem, by simp [hrole]⟩

end Pass

end NodeRollout
