import NodeRollout.Proofs.Roster

/-! What one pass does for a rollout that nothing holds up. It waits for the node that an
abandoned pass marked last, and it marks the next control-plane node or the next workers. It ends
with that node at the target, and at every moment the store is in one of the states `Scene.At`. -/
namespace NodeRollout.Pass

open Scene

variable {r : Roster} {spec : Spec} {settings : Settings} {s : Scene} {done todo : List String}

/-- After the call the rollout is on its way. -/
def Kept (r : Roster) (spec : Spec) (m : Moment Cluster Scene) : Prop := m.after.Standing r spec

theorem kept_of_answers (settings : Settings) {c : ClusterCall} {answer : c.Answer} {t : Scene}
    (hc : c.isWrite = false) (ha : Answers r.order settings spec s c answer t)
    (hs : Ready r spec done todo s) : Kept r spec ⟨s, ⟨c, answer⟩, t⟩ := by
  obtain rfl := ha.eq hc
  exact ⟨done, todo, hs.1⟩

theorem decides_ready (hinterval : 0 < settings.pollInterval) (name : String) :
    Wait.Decides (rolling r.order settings spec) (Kept r spec) settings name spec
      (Ready r spec done todo) (fun reached s => reached = true ∧ s.nodes.AtTarget spec name) where
  stable := stable_ready
  lasts reached := stable_of_drifts fun hd hs => ⟨hs.1, atTarget_drifts hs.2 hd⟩
  calls hc ha hs := kept_of_answers settings hc ha hs
  read := by
    intro s start deadline ended seen t ha hneeds hs
    obtain ⟨rfl, ended', read, hread, hstored, -⟩ := ha
    obtain ⟨rfl, rfl⟩ := Prod.mk.inj (Option.some.inj hread)
    refine ⟨rfl, ?_⟩
    intro node hnode
    obtain rfl := Option.some.inj (hnode.symm.trans (hstored seen rfl))
    exact hneeds
  late := by
    intro s start deadline t ha _
    obtain ⟨-, ended, read, hread, -⟩ := ha
    cases hread
  asleep ha _ := ha.elim
  unscheduled hzero _ := absurd hzero (Nat.pos_iff_ne_zero.mp hinterval)

/-- The next node is marked, after at most four rejections. -/
theorem assures_update_rolling (settings : Settings) {node : Node} {name : String}
    (hs : Ready r spec done (name :: todo) s) (hlanded : s.Landed spec)
    (hname : node.name = name) (hnode : node.isSelectedFor spec = false) (horder : name ∈ r.order) :
    Assures (rolling r.order settings spec) (Kept r spec) (LabelUpdate.run node (selectPlan spec)).run
      (fun t res => res = .ok true ∧ Ready r spec (done ++ [name]) todo t) s := by
  -- while `n` attempts are left, the others have been rejected, and there were fewer than five
  refine LabelUpdate.assures_attempt
    (P := fun seen => seen.name = name ∧ seen.isSelectedFor spec = false)
    (K := fun n s => (s.At r spec done (name :: todo) ∧ s.Landed spec) ∧
      s.rejections + n = LabelUpdate.maxAttempts ∧ s.rejections < LabelUpdate.maxAttempts)
    ?_ ?_ ?_ ?_ ?_ ?_ LabelUpdate.maxAttempts ⟨hname, hnode⟩ ?_
  · rintro n s t hd ⟨⟨hat, hland⟩, hcount, hfew⟩
    rw [← hd.2.1] at hcount hfew
    exact ⟨⟨hat.drifts hd, hland.drifts hd⟩, hcount, hfew⟩
  · rintro s t res hd ⟨rfl, hready⟩
    exact ⟨rfl, hready.drifts hd⟩
  · rintro s ⟨-, hcount, hfew⟩
    omega
  · rintro n s seen ⟨-, hplain⟩ - hempty
    simp [isEmpty_selectPlan, hplain] at hempty
  · rintro n s seen answer t ⟨hseen, hplain⟩ ⟨⟨hat, hland⟩, hcount, -⟩ - ha
    rcases ha with ⟨rfl, hw, hmarked, hzero⟩ | ⟨⟨refused, rfl⟩, hfew, rfl⟩
    · have hnext := hat.mark hland hseen hplain hw hmarked
      exact ⟨⟨_, _, hnext⟩, rfl, hnext, hzero⟩
    · have hat' : At r spec done (name :: todo) { s with rejections := s.rejections + 1 } :=
        ⟨hat.marked, hat.split, hat.stored, hat.absent⟩
      have hcount' : s.rejections + 1 + n = LabelUpdate.maxAttempts := by omega
      exact ⟨⟨_, _, hat'⟩, ⟨hat', hland⟩, hcount', hfew⟩
  · rintro n s answer t hK ⟨rfl, seen, rfl, hseen⟩
    refine ⟨⟨_, _, hK.1.1⟩, ⟨?_, ?_⟩, hK⟩
    · exact (History.name_of_find? hseen).trans hname
    · rw [hname] at hseen
      have hcandidate := (hK.1.1.isCandidate_iff horder hseen).mpr List.mem_cons_self
      simpa using (Bool.and_eq_true_iff.mp hcandidate).1
  · exact ⟨⟨hs.1, hlanded⟩, by rw [hs.2, Nat.zero_add], by rw [hs.2]; decide⟩

theorem assures_select_rolling (settings : Settings) {node : Node} {name : String}
    (hs : Ready r spec done (name :: todo) s) (hlanded : s.Landed spec)
    (hname : node.name = name) (hnode : node.isSelectedFor spec = false) (horder : name ∈ r.order) :
    Assures (rolling r.order settings spec) (Kept r spec) (select spec node).run
      (fun t res => res = .ok () ∧ Ready r spec (done ++ [name]) todo t) s := by
  have hupdate := assures_update_rolling settings hs hlanded hname hnode horder
  refine Assures.attempt (hupdate.mono fun t res ht => ?_)
  obtain ⟨rfl, hready⟩ := ht
  refine Assures.ask fun u hu answer v hv => ?_
  have hready' := hready.drifts hu
  refine ⟨kept_of_answers settings rfl hv hready', Assures.done fun w hw => ⟨rfl, ?_⟩⟩
  exact stable_ready.others hw (stable_ready.calls rfl hv hready')

theorem assures_await_rolling (hinterval : 0 < settings.pollInterval) {node : Node}
    (hs : Ready r spec done todo s) (hlast : done.getLast? = some node.name) :
    Assures (rolling r.order settings spec) (Kept r spec) (await settings spec node)
      (fun t reached => reached = true ∧ Ready r spec done todo t ∧ t.Landed spec) s := by
  refine (assures_await (decides_ready hinterval node.name) hs).mono ?_
  rintro t reached ⟨hready, hreached, hat⟩
  refine ⟨hreached, hready, ?_⟩
  intro name hname
  rw [hready.1.marked, hlast] at hname
  exact Option.some.inj hname ▸ hat

/-- A fresh read of the next worker shows what the list showed, as nobody else marks or upgrades it.
-/
theorem assures_get_rolling (settings : Settings) {name : String}
    (hs : Ready r spec done (name :: todo) s) (hlanded : s.Landed spec) (horder : name ∈ r.order) :
    Assures (rolling r.order settings spec) (Kept r spec) (Cluster.get name).run
      (fun t res => ∃ node, res = .ok node ∧ node.name = name ∧ node.isCandidate spec = true ∧
        Ready r spec done (name :: todo) t ∧ t.Landed spec) s := by
  refine Assures.ask fun t ht answer u hu => ?_
  obtain ⟨rfl, node, rfl, hstored⟩ := hu
  have hready := hs.drifts ht
  have hcandidate := (hready.1.isCandidate_iff horder hstored).mpr List.mem_cons_self
  refine ⟨⟨_, _, hready.1⟩, Assures.done fun v hv => ?_⟩
  exact ⟨node, rfl, History.name_of_find? hstored, hcandidate, hready.drifts hv,
    (hlanded.drifts ht).drifts hv⟩

theorem assures_selectBatch_rolling (hinterval : 0 < settings.pollInterval) (room : Nat)
    (nodes : List Node) (hnames : nodes.map Node.name = todo)
    (horder : ∀ name ∈ todo, name ∈ r.order) (hs : Ready r spec done todo s)
    (hlanded : s.Landed spec) :
    Assures (rolling r.order settings spec) (Kept r spec) (selectBatch settings spec room nodes).run
      (fun t res => res = .ok (todo.take room, none) ∧
        Ready r spec (done ++ todo.take room) (todo.drop room) t ∧ t.Landed spec) s := by
  -- induction over the listed workers, which are what is still to be marked
  induction nodes generalizing room done todo s with
  | nil =>
    subst hnames
    rw [List.map_nil, List.take_nil, List.drop_nil, List.append_nil]
    cases room <;>
      exact Assures.done fun t ht =>
        ⟨rfl, hs.drifts ht, hlanded.drifts ht⟩
  | cons listed rest ih =>
    subst hnames
    rw [List.map_cons] at hs horder
    cases room with
    | zero =>
      rw [List.take_zero, List.drop_zero, List.append_nil]
      exact Assures.done fun t ht =>
        ⟨rfl, hs.drifts ht, hlanded.drifts ht⟩
    | succ room =>
      rw [selectBatch]
      have hlisted : listed.name ∈ r.order := horder _ List.mem_cons_self
      have hget := assures_get_rolling settings hs hlanded hlisted
      refine Assures.attempt (hget.mono fun t res ht => ?_)
      obtain ⟨node, rfl, hname, hcandidate, hready, hlanded'⟩ := ht
      obtain ⟨hplain, hneeds⟩ := Bool.and_eq_true_iff.mp hcandidate
      dsimp only
      rw [hneeds]
      have hselect := assures_select_rolling settings hready hlanded' hname (by simpa using hplain)
        hlisted
      refine Assures.attempt (hselect.mono fun w res hw => ?_)
      obtain ⟨rfl, hmarked⟩ := hw
      have hlast : (done ++ [listed.name]).getLast? = some node.name := by
        rw [List.getLast?_concat, hname]
      have hawait := assures_await_rolling hinterval hmarked hlast
      refine Assures.lift (hawait.mono fun x reached hx => ?_)
      obtain ⟨rfl, hnext, hland⟩ := hx
      have hrest := ih room rfl (fun name hname => horder name (List.mem_cons_of_mem _ hname)) hnext
        hland
      refine Assures.attempt (hrest.mono fun y res hy => ?_)
      obtain ⟨rfl, hend, hlandEnd⟩ := hy
      refine Assures.done fun z hz => ⟨?_, ?_, hlandEnd.drifts hz⟩
      · rw [hname]
        rfl
      · have hend' := hend.drifts hz
        rwa [List.append_assoc, List.singleton_append] at hend'

/-- What a list tells while the rollout is this far. -/
structure Listed (r : Roster) (spec : Spec) (done todo : List String) (nodes : List Node) :
    Prop where
  underWay : ∀ node ∈ nodes, node.isUnderWay spec = true → done.getLast? = some node.name
  roles : ∀ node ∈ nodes, node.isControlPlane = r.isControlPlane node.name
  controlPlane : ((nodes.filter (·.isControlPlane)).filter (·.isCandidate spec)).map Node.name =
    todo.filter r.isControlPlane
  workers : ((nodes.filter (!·.isControlPlane)).filter (·.isCandidate spec)).map Node.name =
    todo.filter (!r.isControlPlane ·)

theorem listed_of_at {nodes : List Node} (hs : s.At r spec done todo)
    (hnames : nodes.map Node.name = r.order)
    (hstored : ∀ node ∈ nodes, s.nodes.find? node.name = some node) :
    Listed r spec done todo nodes := by
  have horder : ∀ node ∈ nodes, node.name ∈ r.order := fun node hnode =>
    hnames ▸ List.mem_map_of_mem hnode
  have hroles : ∀ node ∈ nodes, node.isControlPlane = r.isControlPlane node.name := by
    intro node hnode
    obtain ⟨node', hnode', hrole, -⟩ := hs.stored node.name (horder node hnode)
    obtain rfl := Option.some.inj ((hstored node hnode).symm.trans hnode')
    exact hrole
  have hsuffix : todo.Sublist (r.targets spec) := hs.split ▸ List.sublist_append_right done todo
  obtain ⟨hcp, hworkers⟩ := r.filter_targets spec
  refine ⟨fun node hnode => hs.last_of_underWay (horder node hnode) (hstored node hnode), hroles,
    hs.map_candidates hnames hstored hroles ?_, hs.map_candidates hnames hstored ?_ ?_⟩
  · exact (hcp ▸ hsuffix.filter r.isControlPlane).trans List.filter_sublist
  · intro node hnode
    rw [hroles node hnode]
  · exact (hworkers ▸ hsuffix.filter (!r.isControlPlane ·)).trans List.filter_sublist

/-- The node that was marked last is at the target, unless the list shows it under way. -/
theorem landed_of_list {nodes : List Node} (hs : s.At r spec done todo)
    (hnames : nodes.map Node.name = r.order)
    (hstored : ∀ node ∈ nodes, s.nodes.find? node.name = some node)
    (hidle : ∀ node ∈ nodes, node.isUnderWay spec = false) : s.Landed spec := by
  intro name hlast node hnode
  rw [hs.marked] at hlast
  have hdone : name ∈ done := List.mem_of_getLast? hlast
  have htarget : name ∈ r.targets spec := hs.split ▸ List.mem_append_left todo hdone
  have horder : name ∈ r.order := (Roster.mem_targets.mp htarget).1
  have hnot : name ∉ todo := hs.not_mem_todo hdone
  by_contra hne
  have hneeds : node.needsUpgrade spec = true := by simpa using hne
  obtain ⟨node', hnode', -, -, hrest⟩ := hs.stored name horder
  obtain rfl := Option.some.inj (hnode.symm.trans hnode')
  obtain ⟨listed, hlisted, rfl⟩ := List.mem_map.mp (hnames ▸ horder)
  obtain rfl := Option.some.inj (hnode.symm.trans (hstored listed hlisted))
  have hselected := (hrest hnot hneeds).1
  have hway : node.isUnderWay spec = true := by simp [Node.isUnderWay, hselected, hneeds]
  simp [hidle node hlisted] at hway

/-- Nothing is left to be marked when the list shows every node at the target. -/
theorem eq_nil_of_list {nodes : List Node} (hs : s.At r spec done todo)
    (hnames : nodes.map Node.name = r.order)
    (hstored : ∀ node ∈ nodes, s.nodes.find? node.name = some node)
    (hat : ∀ node ∈ nodes, node.needsUpgrade spec = false) : todo = [] := by
  rw [List.eq_nil_iff_forall_not_mem]
  intro name hname
  have horder := hs.mem_order hname
  obtain ⟨node, hnode, rfl⟩ := List.mem_map.mp (hnames ▸ horder)
  have hcandidate := (hs.isCandidate_iff horder (hstored node hnode)).mpr hname
  simp [Node.isCandidate, hat node hnode] at hcandidate

/-- While a control-plane node is to be marked, only such a node can be under way. -/
theorem Listed.idle_of_controlPlane {nodes : List Node} (hlisted : Listed r spec done todo nodes)
    (hs : s.At r spec done todo) (htodo : todo.filter r.isControlPlane ≠ [])
    (hnone : ∀ node ∈ nodes.filter (·.isControlPlane), node.isUnderWay spec = false) :
    ∀ node ∈ nodes, node.isUnderWay spec = false := by
  intro node hnode
  by_contra hne
  have hnodeWay : node.isUnderWay spec = true := by simpa using hne
  have hdone := List.mem_of_getLast? (hlisted.underWay node hnode hnodeWay)
  have hcp := (hlisted.roles node hnode).trans (hs.isControlPlane_of_mem htodo hdone)
  exact hne (hnone node (List.mem_filter.mpr ⟨hnode, hcp⟩))

theorem idle_of_tiers {nodes : List Node}
    (hnone : ∀ node ∈ nodes.filter (·.isControlPlane), node.isUnderWay spec = false)
    (hrest : ∀ node ∈ nodes.filter (!·.isControlPlane), node.isUnderWay spec = false) :
    ∀ node ∈ nodes, node.isUnderWay spec = false := by
  intro node hnode
  cases hcp : node.isControlPlane with
  | true => exact hnone node (List.mem_filter.mpr ⟨hnode, hcp⟩)
  | false => exact hrest node (List.mem_filter.mpr ⟨hnode, by simp [hcp]⟩)

/-- When no control-plane node is left, what is to be marked are workers. -/
theorem Listed.map_workers {nodes : List Node} (hlisted : Listed r spec done todo nodes)
    (hworkers : todo.filter r.isControlPlane = []) :
    ((nodes.filter (!·.isControlPlane)).filter (·.isCandidate spec)).map Node.name = todo := by
  rw [hlisted.workers, List.filter_eq_self]
  intro name hname
  simpa using List.filter_eq_nil_iff.mp hworkers name hname

structure Sound (settings : Settings) (spec : Spec) (limit : Nat) : Prop where
  interval : 0 < settings.pollInterval
  timeout : 0 < settings.completionTimeout
  workerLimit : spec.workerLimit settings.defaultMaxUnavailable = limit
  room : 0 < limit
  target : spec.isNoop = false

/-- How many nodes a pass marks: one of the control plane, or workers up to the limit. -/
def room (r : Roster) (limit : Nat) (todo : List String) : Nat :=
  if todo.any r.isControlPlane then 1 else limit

/-- What a pass came to that began in `s` and left `t`. -/
inductive Advances (r : Roster) (spec : Spec) (limit : Nat) (done todo : List String)
    (s t : Scene) : Except Failure PassOutcome → Prop
  | steady (finished : todo = []) (ready : Ready r spec done todo t) :
    Advances r spec limit done todo s t (.ok .steady)
  | marks {count : Nat} (behind : todo ≠ []) (room : room r limit todo = count)
    (ready : Ready r spec (done ++ todo.take count) (todo.drop count) t) :
    Advances r spec limit done todo s t (.ok (.advanced (todo.take count)))
  /-- The pass only waited for the node that an abandoned one had marked. -/
  | resumes (late : ¬ s.Landed spec)
    (last : todo = [] ∨ ∃ name, done.getLast? = some name ∧ r.isControlPlane name = true)
    (ready : Ready r spec done todo t) : Advances r spec limit done todo s t (.ok (.advanced []))

/-- The only node under way is the one that was marked last, so once those under way have been awaited
it is at the target. -/
theorem assures_underWay_rolling (hinterval : 0 < settings.pollInterval) {workers : List Node}
    (hway : ∀ node ∈ workers, node.isUnderWay spec = true → done.getLast? = some node.name)
    (hs : Ready r spec done todo s)
    (hidle : (∀ node ∈ workers, node.isUnderWay spec = false) → s.Landed spec) :
    Assures (rolling r.order settings spec) (Kept r spec)
      (awaitAll settings spec (workers.filter (·.isUnderWay spec)))
      (fun t stuck => stuck = none ∧ Ready r spec done todo t ∧ t.Landed spec) s := by
  have hstable : Stable (rolling r.order settings spec)
      (fun s => (∀ node ∈ workers, node.isUnderWay spec = false) → s.Landed spec) :=
    stable_of_drifts fun hd h hnone => (h hnone).drifts hd
  have hdecides : ∀ node : Node, Wait.Decides (rolling r.order settings spec) (Kept r spec) settings
      node.name spec (Ready r spec done todo) _ := fun node => decides_ready hinterval node.name
  have hawait := assures_awaitAll (fun node => (hdecides node).and hstable)
    (workers.filter (·.isUnderWay spec)) ⟨hs, hidle⟩
  refine hawait.mono fun t stuck ht => ?_
  obtain ⟨⟨hready, hidle'⟩, hstuck⟩ := ht
  cases stuck with
  | some node => cases hstuck.1
  | none =>
    refine ⟨rfl, hready, ?_⟩
    cases hfilter : workers.filter (·.isUnderWay spec) with
    | nil =>
      refine hidle' fun node hnode => ?_
      simpa using List.filter_eq_nil_iff.mp hfilter node hnode
    | cons node rest =>
      have hmem : node ∈ workers.filter (·.isUnderWay spec) := hfilter ▸ List.mem_cons_self
      obtain ⟨hworker, hnodeWay⟩ := List.mem_filter.mp hmem
      intro name hlast
      rw [hready.1.marked, hway node hworker hnodeWay] at hlast
      exact Option.some.inj hlast ▸ (hstuck node hmem).2

theorem assures_workerTier_rolling (hinterval : 0 < settings.pollInterval) {limit : Nat}
    (hlimit : spec.workerLimit settings.defaultMaxUnavailable = limit) {workers : List Node}
    (hcandidates : (workers.filter (·.isCandidate spec)).map Node.name = todo)
    (hway : ∀ node ∈ workers, node.isUnderWay spec = true → done.getLast? = some node.name)
    (horder : ∀ name ∈ todo, name ∈ r.order) (hs : Ready r spec done todo s)
    (hidle : (∀ node ∈ workers, node.isUnderWay spec = false) → s.Landed spec) :
    Assures (rolling r.order settings spec) (Kept r spec) (workerTier settings spec workers).run
      (fun t res => t.Landed spec ∧
        Ready r spec (done ++ todo.take limit) (todo.drop limit) t ∧
        res = .ok (if (todo.take limit).isEmpty && (workers.filter (·.isUnderWay spec)).isEmpty
          then .steady else .advanced (todo.take limit))) s := by
  have hawait := assures_underWay_rolling hinterval hway hs hidle
  refine Assures.lift (hawait.mono fun t stuck ht => ?_)
  obtain ⟨rfl, hready, hlanded⟩ := ht
  have hlength : (workers.filter (·.isCandidate spec)).length = todo.length := by
    rw [← hcandidates, List.length_map]
  have hbatch := assures_selectBatch_rolling hinterval (min limit todo.length) _ hcandidates
    horder hready hlanded
  rw [← List.take_eq_take_min, ← List.drop_eq_drop_min] at hbatch
  dsimp only
  rw [hlimit, hlength]
  refine Assures.attempt (hbatch.mono fun u res hu => ?_)
  obtain ⟨rfl, hend, hlanded'⟩ := hu
  dsimp only
  split <;> exact Assures.done fun v hv => ⟨hlanded'.drifts hv, hend.drifts hv, rfl⟩

/-- What the control-plane tier came to. It goes on to the workers only when nothing is left of it,
and then no call was made, so that what others keep still holds. -/
def TierDone (r : Roster) (spec : Spec) (done todo : List String) (nodes : List Node)
    (L : Scene → Prop) (t : Scene) : Except Failure (Option PassOutcome) → Prop
  | .ok none => todo.filter r.isControlPlane = [] ∧ (∀ node ∈ nodes, node.isUnderWay spec = false) ∧
    Ready r spec done todo t ∧ L t
  | .ok (some outcome) => t.Landed spec ∧
    ((∃ node ∈ nodes, node.isUnderWay spec = true ∧ outcome = .advanced [] ∧
        Ready r spec done todo t) ∨
      ∃ name rest, todo = name :: rest ∧ r.isControlPlane name = true ∧
        outcome = .advanced [name] ∧ Ready r spec (done ++ [name]) rest t)
  | .error _ => False

theorem TierDone.others {t u : Scene} {nodes : List Node} {L : Scene → Prop} {outcome : PassOutcome}
    (hdone : TierDone r spec done todo nodes L t (.ok (some outcome))) (hd : Drifts spec t u) :
    TierDone r spec done todo nodes L u (.ok (some outcome)) := by
  refine ⟨hdone.1.drifts hd, ?_⟩
  rcases hdone.2 with ⟨node, hnode, hway, rfl, hready⟩ | ⟨name, rest, rfl, hrole, rfl, hready⟩
  · exact .inl ⟨node, hnode, hway, rfl, hready.drifts hd⟩
  · exact .inr ⟨name, rest, rfl, hrole, rfl, hready.drifts hd⟩

theorem assures_awaitLast_rolling (hinterval : 0 < settings.pollInterval) {node : Node}
    (selected : List String) (hs : Ready r spec done todo s)
    (hlast : done.getLast? = some node.name) :
    Assures (rolling r.order settings spec) (Kept r spec) (awaitLast settings spec node selected)
      (fun t outcome => outcome = .advanced selected ∧ Ready r spec done todo t ∧ t.Landed spec)
      s := by
  refine Assures.bind ((assures_await_rolling hinterval hs hlast).mono fun t reached ht => ?_)
  obtain ⟨rfl, hready, hlanded⟩ := ht
  refine Assures.done fun u hu => ⟨rfl, ?_, hlanded.drifts hu⟩
  exact hready.drifts hu

/-- The first candidate of the control plane in the list is the first node that is to be marked. -/
theorem next_controlPlane {nodes : List Node} {node : Node} (hs : s.At r spec done todo)
    (hcandidates :
      (nodes.filter (·.isCandidate spec)).map Node.name = todo.filter r.isControlPlane)
    (hidle : todo.filter r.isControlPlane ≠ [] →
      (∀ node ∈ nodes, node.isUnderWay spec = false) → s.Landed spec)
    (hnone : nodes.find? (·.isUnderWay spec) = none)
    (hfind : nodes.find? (·.isCandidate spec) = some node) :
    ∃ rest, todo = node.name :: rest ∧ s.Landed spec ∧ node.isSelectedFor spec = false ∧
      r.isControlPlane node.name = true := by
  have hhead : (nodes.filter (·.isCandidate spec)).head? = some node := by
    rw [List.head?_filter, hfind]
  obtain ⟨others, hothers⟩ := List.head?_eq_some_iff.mp hhead
  rw [hothers, List.map_cons] at hcandidates
  have hlanded : s.Landed spec := by
    refine hidle (hcandidates ▸ List.cons_ne_nil _ _) fun other hother => ?_
    simpa using List.find?_eq_none.mp hnone other hother
  obtain ⟨rest, rfl⟩ := hs.cons_of_filter hcandidates.symm
  have hcandidate : node.isCandidate spec = true := by simpa using List.find?_some hfind
  refine ⟨rest, rfl, hlanded, ?_, (List.mem_filter.mp (hcandidates ▸ List.mem_cons_self)).2⟩
  simpa using (Bool.and_eq_true_iff.mp hcandidate).1

theorem assures_controlPlaneTier_rolling (hinterval : 0 < settings.pollInterval)
    {nodes : List Node} {L : Scene → Prop} (hL : Stable (rolling r.order settings spec) L)
    (hcandidates :
      (nodes.filter (·.isCandidate spec)).map Node.name = todo.filter r.isControlPlane)
    (hway : ∀ node ∈ nodes, node.isUnderWay spec = true → done.getLast? = some node.name)
    (horder : ∀ name ∈ todo, name ∈ r.order) (hs : Ready r spec done todo s) (hLs : L s)
    (hidle : todo.filter r.isControlPlane ≠ [] →
      (∀ node ∈ nodes, node.isUnderWay spec = false) → s.Landed spec) :
    Assures (rolling r.order settings spec) (Kept r spec) (controlPlaneTier settings spec nodes).run
      (fun t res => TierDone r spec done todo nodes L t res) s := by
  unfold controlPlaneTier
  split
  next node hfind =>
    have hmem := List.mem_of_find?_eq_some hfind
    have hnodeWay : node.isUnderWay spec = true := by simpa using List.find?_some hfind
    have hawait := assures_awaitLast_rolling hinterval [] hs (hway node hmem hnodeWay)
    refine Assures.lift (hawait.mono fun t outcome ht => ?_)
    obtain ⟨rfl, hready, hlanded⟩ := ht
    refine Assures.done fun u hu => ⟨hlanded.drifts hu, .inl ?_⟩
    exact ⟨node, hmem, hnodeWay, rfl, hready.drifts hu⟩
  next hnone =>
    have hnone' : ∀ node ∈ nodes, node.isUnderWay spec = false :=
      fun node hnode => by simpa using List.find?_eq_none.mp hnone node hnode
    split
    next node hfind =>
      obtain ⟨rest, rfl, hlanded, hplain, hrole⟩ :=
        next_controlPlane hs.1 hcandidates hidle hnone hfind
      have hname := horder _ List.mem_cons_self
      have hselect := assures_select_rolling settings hs hlanded rfl hplain hname
      refine Assures.attempt (hselect.mono fun t res ht => ?_)
      obtain ⟨rfl, hmarked⟩ := ht
      have hlast : (done ++ [node.name]).getLast? = some node.name := List.getLast?_concat
      have hawait := assures_awaitLast_rolling hinterval [node.name] hmarked hlast
      refine Assures.lift (hawait.mono fun u outcome hu => ?_)
      obtain ⟨rfl, hready, hlanded'⟩ := hu
      refine Assures.done fun v hv => ⟨hlanded'.drifts hv, .inr ?_⟩
      exact ⟨node.name, rest, rfl, hrole, rfl, hready.drifts hv⟩
    next hcandidate =>
      have hempty : nodes.filter (·.isCandidate spec) = [] := by
        rw [List.filter_eq_nil_iff]
        exact List.find?_eq_none.mp hcandidate
      rw [hempty, List.map_nil] at hcandidates
      refine Assures.done fun t ht => ⟨hcandidates.symm, hnone', ?_, hL.others ht hLs⟩
      exact hs.drifts ht

/-- The order rules out that a node in the list is under way when the one marked last is there. -/
theorem not_landed_of_underWay {t : Scene} {nodes : List Node} {node : Node}
    (hd : Drifts spec s t) (hs : t.At r spec done todo)
    (hstored : ∀ node ∈ nodes, t.nodes.find? node.name = some node) (hnode : node ∈ nodes)
    (hway : node.isUnderWay spec = true) (hlast : done.getLast? = some node.name) :
    ¬ s.Landed spec := by
  intro hlanded
  have hat := hlanded.drifts hd node.name (hs.marked ▸ hlast) node (hstored node hnode)
  simp [Node.isUnderWay, hat] at hway

theorem TierDone.advances {limit : Nat} {t : Scene} {nodes : List Node} {L : Scene → Prop}
    {outcome : PassOutcome} (hdone : TierDone r spec done todo nodes L t (.ok (some outcome)))
    (hroles : ∀ node ∈ nodes, r.isControlPlane node.name = true)
    (hway : ∀ node ∈ nodes, node.isUnderWay spec = true →
      done.getLast? = some node.name ∧ ¬ s.Landed spec) :
    Advances r spec limit done todo s t (.ok outcome) := by
  rcases hdone.2 with ⟨node, hnode, hnodeWay, rfl, hready⟩ | ⟨name, rest, rfl, hrole, rfl, hready⟩
  · obtain ⟨hlast, hlate⟩ := hway node hnode hnodeWay
    exact .resumes hlate (.inr ⟨node.name, hlast, hroles node hnode⟩) hready
  · have hroom : room r limit (name :: rest) = 1 := by simp [room, hrole]
    exact .marks (List.cons_ne_nil name rest) hroom hready

theorem advances_of_workerTier {limit : Nat} {t : Scene} {workers : List Node} (hpos : 0 < limit)
    (hroom : room r limit todo = limit)
    (hway : ∀ node ∈ workers, node.isUnderWay spec = true → ¬ s.Landed spec)
    (hready : Ready r spec (done ++ todo.take limit) (todo.drop limit) t) :
    Advances r spec limit done todo s t (.ok
      (if (todo.take limit).isEmpty && (workers.filter (·.isUnderWay spec)).isEmpty then .steady
      else .advanced (todo.take limit))) := by
  cases todo with
  | cons name rest =>
    obtain ⟨few, rfl⟩ := Nat.exists_eq_succ_of_ne_zero (Nat.pos_iff_ne_zero.mp hpos)
    exact .marks (List.cons_ne_nil name rest) hroom hready
  | nil =>
    rw [List.take_nil, List.append_nil, List.drop_nil] at hready
    rw [List.take_nil]
    cases hfilter : workers.filter (·.isUnderWay spec) with
    | nil => exact .steady rfl hready
    | cons node rest =>
      have hmem : node ∈ workers.filter (·.isUnderWay spec) := hfilter ▸ List.mem_cons_self
      obtain ⟨hnode, hnodeWay⟩ := List.mem_filter.mp hmem
      exact .resumes (hway node hnode hnodeWay) (.inl rfl) hready

/-- What a pass that began in `s` knows when it has listed the nodes. -/
structure Surveyed (r : Roster) (spec : Spec) (done todo : List String) (s : Scene)
    (nodes : List Node) (t : Scene) : Prop where
  ready : Ready r spec done todo t
  listed : Listed r spec done todo nodes
  idle : (∀ node ∈ nodes, node.isUnderWay spec = false) → t.Landed spec
  finished : (∀ node ∈ nodes, node.needsUpgrade spec = false) → todo = []
  late : ∀ node ∈ nodes, node.isUnderWay spec = true → ¬ s.Landed spec

theorem Surveyed.landed_of_controlPlane {nodes : List Node} {t : Scene}
    (h : Surveyed r spec done todo s nodes t) (htodo : todo.filter r.isControlPlane ≠ [])
    (hnone : ∀ node ∈ nodes.filter (·.isControlPlane), node.isUnderWay spec = false) :
    t.Landed spec := h.idle (h.listed.idle_of_controlPlane h.ready.1 htodo hnone)

theorem assures_list_rolling (settings : Settings) (hs : Ready r spec done todo s) :
    Assures (rolling r.order settings spec) (Kept r spec) Cluster.list.run
      (fun t res => ∃ nodes, res = .ok nodes ∧ Surveyed r spec done todo s nodes t) s := by
  refine Assures.ask fun t ht answer u hu => ?_
  obtain ⟨rfl, nodes, rfl, hnames, hsnapshot⟩ := hu
  have hready := hs.drifts ht
  refine ⟨⟨_, _, hready.1⟩, Assures.done fun v hv => ⟨nodes, rfl, ?_⟩⟩
  have hstored : ∀ node ∈ nodes, u.nodes.find? node.name = some node :=
    fun node hnode => (hsnapshot.2 node).mp hnode
  have hlisted := listed_of_at hready.1 hnames hstored
  exact {
    ready := hready.drifts hv
    listed := hlisted
    idle := fun hidle => (landed_of_list hready.1 hnames hstored hidle).drifts hv
    finished := eq_nil_of_list hready.1 hnames hstored
    late := fun node hnode hway =>
      not_landed_of_underWay ht hready.1 hstored hnode hway (hlisted.underWay node hnode hway) }

/-- The tiers are stable in what the list told of the node that was marked last. -/
theorem stable_idle {nodes : List Node} : Stable (rolling r.order settings spec)
    (fun s => (∀ node ∈ nodes, node.isUnderWay spec = false) → s.Landed spec) :=
  stable_of_drifts fun hd h hnone => (h hnone).drifts hd

theorem assures_run_rolling {limit : Nat} (hsound : Sound settings spec limit)
    (hs : Ready r spec done todo s) :
    Assures (rolling r.order settings spec) (Kept r spec) (run settings spec).run
      (fun t res => t.Landed spec ∧ Advances r spec limit done todo s t res) s := by
  unfold run
  rw [hsound.target]
  refine Assures.attempt ((assures_list_rolling settings hs).mono fun t res ht => ?_)
  obtain ⟨nodes, rfl, hsurvey⟩ := ht
  have horder : ∀ name ∈ todo, name ∈ r.order := fun name => hs.1.mem_order
  have hway : ∀ {p : Node → Bool}, ∀ node ∈ nodes.filter p, node.isUnderWay spec = true →
      done.getLast? = some node.name :=
    fun node hnode => hsurvey.listed.underWay node (List.mem_filter.mp hnode).1
  have hlate : ∀ {p : Node → Bool}, ∀ node ∈ nodes.filter p, node.isUnderWay spec = true →
      ¬ s.Landed spec := fun node hnode => hsurvey.late node (List.mem_filter.mp hnode).1
  dsimp only
  split
  next hnone =>
    have hat : ∀ node ∈ nodes, node.needsUpgrade spec = false := by simpa using hnone
    have hlanded := hsurvey.idle fun node hnode => by simp [Node.isUnderWay, hat node hnode]
    refine Assures.done fun w hw => ⟨hlanded.drifts hw, ?_⟩
    exact .steady (hsurvey.finished hat) (hsurvey.ready.drifts hw)
  next =>
    rw [List.partition_eq_filter_filter]
    have htier := assures_controlPlaneTier_rolling hsound.interval stable_idle
      hsurvey.listed.controlPlane hway horder hsurvey.ready hsurvey.idle
      hsurvey.landed_of_controlPlane
    refine Assures.attempt (htier.mono fun w res hw => ?_)
    cases res with
    | error failure => exact hw.elim
    | ok outcome =>
      cases outcome with
      | some outcome =>
        refine Assures.done fun x hx => ⟨hw.1.drifts hx, ?_⟩
        refine (hw.others hx).advances ?_ fun node hnode hnodeWay =>
          ⟨hway node hnode hnodeWay, hlate node hnode hnodeWay⟩
        intro node hnode
        obtain ⟨hmem, hcp⟩ := List.mem_filter.mp hnode
        exact (hsurvey.listed.roles node hmem).symm.trans hcp
      | none =>
        obtain ⟨hworkers, hnone, hready, hidle⟩ := hw
        have hroom : room r limit todo = limit := by
          rw [room, if_neg]
          simpa using List.filter_eq_nil_iff.mp hworkers
        have hbatch := assures_workerTier_rolling hsound.interval hsound.workerLimit
          (hsurvey.listed.map_workers hworkers) hway horder hready
          fun hrest => hidle (idle_of_tiers hnone hrest)
        refine hbatch.mono fun x res hx => ?_
        obtain ⟨hlanded, hend, rfl⟩ := hx
        exact ⟨hlanded, advances_of_workerTier hsound.room hroom hlate hend⟩

end NodeRollout.Pass
