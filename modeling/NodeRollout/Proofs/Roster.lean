import NodeRollout.Proofs.Ordering

/-! A rollout that nothing holds up: every node that is marked gets to the target in time, and no
other one does. A `Roster` tells beforehand which nodes will be marked, and in which order.
`Scene.At` says how far the rollout is: which of them are marked and which are still to be. Others
do not change that, and neither does a call that writes nothing. -/
namespace NodeRollout

/-- The nodes of a cluster at the start of a rollout, and the order in which they are listed. -/
structure Roster where
  nodes : History
  order : List String
  nodup : order.Nodup
  complete : ∀ name, (nodes.find? name).isSome ↔ name ∈ order

namespace Roster

def isControlPlane (r : Roster) (name : String) : Bool :=
  (r.nodes.find? name).any Node.isControlPlane

def needsUpgrade (r : Roster) (spec : Spec) (name : String) : Bool :=
  (r.nodes.find? name).any (·.needsUpgrade spec)

def controlPlane (r : Roster) (spec : Spec) : List String :=
  r.order.filter fun name => r.isControlPlane name && r.needsUpgrade spec name

def workers (r : Roster) (spec : Spec) : List String :=
  r.order.filter fun name => !r.isControlPlane name && r.needsUpgrade spec name

/-- The nodes to upgrade, in the order of the rollout. -/
def targets (r : Roster) (spec : Spec) : List String := r.controlPlane spec ++ r.workers spec

variable {r : Roster} {spec : Spec} {name : String}

theorem mem_targets : name ∈ r.targets spec ↔ name ∈ r.order ∧ r.needsUpgrade spec name = true := by
  cases hrole : r.isControlPlane name <;> simp [targets, controlPlane, workers, hrole]

theorem isControlPlane_of_mem (hname : name ∈ r.controlPlane spec) :
    r.isControlPlane name = true :=
  (Bool.and_eq_true_iff.mp (List.mem_filter.mp hname).2).1

theorem not_controlPlane_of_mem (hname : name ∈ r.workers spec) : r.isControlPlane name = false := by
  simpa using (Bool.and_eq_true_iff.mp (List.mem_filter.mp hname).2).1

theorem nodup_targets (r : Roster) (spec : Spec) : (r.targets spec).Nodup := by
  refine List.nodup_append.mpr ⟨r.nodup.filter _, r.nodup.filter _, ?_⟩
  rintro a ha b hb rfl
  exact absurd (isControlPlane_of_mem ha) (by simp [not_controlPlane_of_mem hb])

theorem filter_workers (r : Roster) (spec : Spec) :
    (r.workers spec).filter r.isControlPlane = [] := by
  rw [List.filter_eq_nil_iff]
  intro name hname
  simp [not_controlPlane_of_mem hname]

theorem filter_targets (r : Roster) (spec : Spec) :
    (r.targets spec).filter r.isControlPlane = r.controlPlane spec ∧
      (r.targets spec).filter (!r.isControlPlane ·) = r.workers spec := by
  constructor
  · have hcp : (r.controlPlane spec).filter r.isControlPlane = r.controlPlane spec :=
      List.filter_eq_self.mpr fun name hname => isControlPlane_of_mem hname
    rw [targets, List.filter_append, hcp, filter_workers, List.append_nil]
  · have hcp : (r.controlPlane spec).filter (!r.isControlPlane ·) = [] := by
      rw [List.filter_eq_nil_iff]
      intro name hname
      simp [isControlPlane_of_mem hname]
    have hworkers : (r.workers spec).filter (!r.isControlPlane ·) = r.workers spec := by
      rw [List.filter_eq_self]
      intro name hname
      simp [not_controlPlane_of_mem hname]
    rw [targets, List.filter_append, hcp, hworkers, List.nil_append]

end Roster

/-- The stored nodes, the nodes that passes have marked, in this order, and how often in a row the
write that is being tried was rejected. -/
structure Scene where
  nodes : History
  marked : List String
  rejections : Nat

namespace Scene

variable {r : Roster} {spec : Spec} {settings : Settings} {s t u : Scene} {done todo : List String}

/-- What others do meanwhile: a marked node gets to the target, a node that is there may lose its
marker. Nobody else sets a marker of this target. -/
def Drifts (spec : Spec) (s t : Scene) : Prop :=
  t.marked = s.marked ∧ t.rejections = s.rejections ∧
  (∀ name, s.nodes.find? name = none → t.nodes.find? name = none) ∧
  ∀ name old, s.nodes.find? name = some old → ∃ new, t.nodes.find? name = some new ∧
    new.isControlPlane = old.isControlPlane ∧
    (new.isSelectedFor spec = true → old.isSelectedFor spec = true) ∧
    (old.isSelectedFor spec = true →
      new.isSelectedFor spec = true ∨ new.needsUpgrade spec = false) ∧
    (old.needsUpgrade spec = false → new.needsUpgrade spec = false) ∧
    (old.needsUpgrade spec = true → new.needsUpgrade spec = false → name ∈ s.marked)

theorem Drifts.refl (spec : Spec) (s : Scene) : Drifts spec s s := by
  refine ⟨rfl, rfl, fun _ => id, ?_⟩
  intro name old hold
  exact ⟨old, hold, rfl, id, .inl, id, fun hneeds hat => by simp [hneeds] at hat⟩

theorem Drifts.trans (a : Drifts spec s t) (b : Drifts spec t u) : Drifts spec s u := by
  obtain ⟨hmarked, hrejections, hnone, hsome⟩ := a
  obtain ⟨hmarked', hrejections', hnone', hsome'⟩ := b
  refine ⟨hmarked'.trans hmarked, hrejections'.trans hrejections,
    fun name h => hnone' name (hnone name h), ?_⟩
  intro name old hold
  obtain ⟨mid, hmid, hrole, hset, hkept, hat, hreached⟩ := hsome name old hold
  obtain ⟨new, hnew, hrole', hset', hkept', hat', hreached'⟩ := hsome' name mid hmid
  refine ⟨new, hnew, hrole'.trans hrole, hset ∘ hset', ?_, hat' ∘ hat, ?_⟩
  · intro hold
    rcases hkept hold with hmid | hmid
    · exact hkept' hmid
    · exact .inr (hat' hmid)
  · intro hneeds hnew
    cases hbehind : mid.needsUpgrade spec with
    | true => exact hmarked ▸ hreached' hbehind hnew
    | false => exact hreached hneeds hbehind

/-- How the store and the clock answer. A write is rejected at most four times in a row, every other
call of the store succeeds, and every wait has a read before its deadline that shows the target. -/
def Answers (order : List String) (settings : Settings) (spec : Spec) (s : Scene) :
    (c : ClusterCall) → c.Answer → Scene → Prop
  | .list, answer, t => t = s ∧ ∃ nodes, answer = Except.ok nodes ∧
    nodes.map Node.name = order ∧ s.nodes.IsSnapshot nodes
  | .get name, answer, t => t = s ∧ ∃ node, answer = Except.ok node ∧
    s.nodes.find? name = some node
  | .patch seen changes, answer, t =>
    (answer = Except.ok () ∧ s.nodes.Writes seen changes t.nodes ∧
      t.marked = s.marked ++ [seen.name] ∧ t.rejections = 0) ∨
    (∃ name, answer = Except.error (.conflict name)) ∧
      s.rejections + 1 < LabelUpdate.maxAttempts ∧ t = { s with rejections := s.rejections + 1 }
  | .readUntil name start deadline, answer, t => t = s ∧ ∃ ended read,
    answer = some (ended, read) ∧ (∀ node, read = Except.ok node → s.nodes.find? name = some node) ∧
      (Wait.reached spec read = true ∨
        Wait.nextTick settings.pollInterval start ended < deadline)
  | .sleepUntil _, _, _ => False
  | _, _, t => t = s

/-- What the answers rely on when a call is made: nobody overtakes a write that was rejected four
times, and at the last read before a deadline the node is at the target. -/
def Promise (settings : Settings) (spec : Spec) (s : Scene) : ClusterCall → Prop
  | .patch seen _ =>
    s.rejections + 1 = LabelUpdate.maxAttempts → s.nodes.find? seen.name = some seen
  | .readUntil name start deadline =>
    deadline ≤ start + settings.pollInterval → s.nodes.AtTarget spec name
  | _ => True

abbrev rolling (order : List String) (settings : Settings) (spec : Spec) :
    Setting Cluster Scene where
  Serves := Answers order settings spec
  Others := Drifts spec
  idle := Drifts.refl spec
  chain := Drifts.trans

theorem Answers.eq {order : List String} {c : ClusterCall} {answer : c.Answer}
    (ha : Answers order settings spec s c answer t) (hc : c.isWrite = false) : t = s := by
  cases c with
  | patch seen changes => cases hc
  | list => exact ha.1
  | get => exact ha.1
  | readUntil => exact ha.1
  | sleepUntil => exact ha.elim
  | upgrades => exact ha
  | push => exact ha
  | now => exact ha
  | count => exact ha

/-- How far the rollout is: `done` are marked, `todo` are still to be. Of the others, only the node
that was marked last may be behind the target, and then it carries its marker. -/
structure At (r : Roster) (spec : Spec) (done todo : List String) (s : Scene) : Prop where
  marked : s.marked = done
  split : done ++ todo = r.targets spec
  stored : ∀ name ∈ r.order, ∃ node, s.nodes.find? name = some node ∧
    node.isControlPlane = r.isControlPlane name ∧
    (name ∈ todo → node.isCandidate spec = true) ∧
    (name ∉ todo → node.needsUpgrade spec = true →
      node.isSelectedFor spec = true ∧ done.getLast? = some name)
  absent : ∀ name ∉ r.order, s.nodes.find? name = none

def Standing (r : Roster) (spec : Spec) (s : Scene) : Prop := ∃ done todo, s.At r spec done todo

/-- The node that was marked last is at the target. -/
def Landed (spec : Spec) (s : Scene) : Prop :=
  ∀ name, s.marked.getLast? = some name → s.nodes.AtTarget spec name

/-- Between two updates of labels, none is under way. -/
def Ready (r : Roster) (spec : Spec) (done todo : List String) (s : Scene) : Prop :=
  s.At r spec done todo ∧ s.rejections = 0

theorem At.mem_order {name : String} (hs : s.At r spec done todo) (hname : name ∈ todo) :
    name ∈ r.order := by
  have htarget : name ∈ r.targets spec := hs.split ▸ List.mem_append_right done hname
  exact (Roster.mem_targets.mp htarget).1

theorem At.not_mem_todo {name : String} (hs : s.At r spec done todo) (hname : name ∈ done) :
    name ∉ todo := by
  intro hmem
  have hnodup := hs.split ▸ r.nodup_targets spec
  exact (List.nodup_append.mp hnodup).2.2 name hname name hmem rfl

theorem At.drifts (hs : s.At r spec done todo) (hd : Drifts spec s t) : t.At r spec done todo := by
  obtain ⟨hmarked, -, hnone, hsome⟩ := hd
  refine ⟨hmarked.trans hs.marked, hs.split, ?_, fun name hname => hnone name (hs.absent name hname)⟩
  intro name hname
  obtain ⟨old, hold, hrole, htodo, hrest⟩ := hs.stored name hname
  obtain ⟨new, hnew, hrole', hset, hkept, hat, hreached⟩ := hsome name old hold
  refine ⟨new, hnew, hrole'.trans hrole, ?_, ?_⟩
  · intro hmem
    obtain ⟨hunset, hneeds⟩ := Bool.and_eq_true_iff.mp (htodo hmem)
    -- a node that is still to be marked is not marked, so nothing moves it
    have hnot : name ∉ s.marked := by
      rw [hs.marked]
      intro hdone
      exact hs.not_mem_todo hdone hmem
    have hbehind : new.needsUpgrade spec = true := by
      by_contra hne
      exact hnot (hreached hneeds (by simpa using hne))
    have hplain : new.isSelectedFor spec = false := by
      by_contra hne
      simp [hset (by simpa using hne)] at hunset
    simp [Node.isCandidate, hbehind, hplain]
  · intro hnot hneeds
    have hbehind : old.needsUpgrade spec = true := by
      by_contra hne
      simp [hat (by simpa using hne)] at hneeds
    obtain ⟨hselected, hlast⟩ := hrest hnot hbehind
    refine ⟨?_, hlast⟩
    rcases hkept hselected with hstill | hgone
    · exact hstill
    · simp [hgone] at hneeds

theorem Standing.drifts (hs : s.Standing r spec) (hd : Drifts spec s t) : t.Standing r spec := by
  obtain ⟨done, todo, hat⟩ := hs
  exact ⟨done, todo, hat.drifts hd⟩

theorem atTarget_drifts {name : String} (hat : s.nodes.AtTarget spec name)
    (hd : Drifts spec s t) : t.nodes.AtTarget spec name := by
  obtain ⟨-, -, hnone, hsome⟩ := hd
  intro new hnew
  cases hold : s.nodes.find? name with
  | none => simp [hnone name hold] at hnew
  | some old =>
    obtain ⟨new', hnew', -, -, -, hkept, -⟩ := hsome name old hold
    obtain rfl := Option.some.inj (hnew.symm.trans hnew')
    exact hkept (hat old hold)

theorem Landed.drifts (hs : s.Landed spec) (hd : Drifts spec s t) : t.Landed spec := by
  intro name hlast
  rw [hd.1] at hlast
  exact atTarget_drifts (hs name hlast) hd

theorem stable_of_drifts {order : List String} {K : Scene → Prop}
    (hK : ∀ {s t}, Drifts spec s t → K s → K t) : Stable (rolling order settings spec) K where
  others := hK
  calls hc hs h := by
    rw [Answers.eq hs hc]
    exact h

theorem Ready.drifts (hs : Ready r spec done todo s) (hd : Drifts spec s t) :
    Ready r spec done todo t := ⟨hs.1.drifts hd, hd.2.1.trans hs.2⟩

theorem stable_ready : Stable (rolling r.order settings spec) (Ready r spec done todo) :=
  stable_of_drifts fun hd hs => hs.drifts hd

/-- Before the first pass everything is still to be marked. -/
theorem at_start (hunmarked : ∀ name node, r.nodes.find? name = some node →
    node.isSelectedFor spec = false) : At r spec [] (r.targets spec) ⟨r.nodes, [], 0⟩ where
  marked := rfl
  split := List.nil_append _
  stored := by
    intro name hname
    obtain ⟨node, hnode⟩ := Option.isSome_iff_exists.mp ((r.complete name).mpr hname)
    refine ⟨node, hnode, by simp [Roster.isControlPlane, hnode], ?_, ?_⟩
    · intro hmem
      have hneeds := (Roster.mem_targets.mp hmem).2
      simp only [Roster.needsUpgrade, hnode, Option.any_some] at hneeds
      simp [Node.isCandidate, hunmarked name node hnode, hneeds]
    · intro hnot hneeds
      refine absurd (Roster.mem_targets.mpr ⟨hname, ?_⟩) hnot
      simpa [Roster.needsUpgrade, hnode] using hneeds
  absent := by
    intro name hname
    by_contra hsome
    exact hname ((r.complete name).mp (Option.isSome_iff_ne_none.mpr hsome))

/-- The next node is marked, while the one before is at the target. -/
theorem At.mark {seen : Node} {name : String} (hs : s.At r spec done (name :: todo))
    (hlanded : s.Landed spec) (hname : seen.name = name) (hseen : seen.isSelectedFor spec = false)
    (hw : s.nodes.Writes seen (Pass.selectPlan spec seen) t.nodes)
    (hmarked : t.marked = s.marked ++ [seen.name]) : t.At r spec (done ++ [name]) todo where
  marked := by rw [hmarked, hs.marked, hname]
  split := by rw [List.append_assoc, List.singleton_append, hs.split]
  stored := by
    intro other hother
    obtain ⟨node, hnode, hrole, htodo, hrest⟩ := hs.stored other hother
    obtain ⟨old, version, hold, hafter⟩ := hw.find?
    rw [hname] at hold hafter
    have hnodup := hs.split ▸ r.nodup_targets spec
    have hfresh : name ∉ todo := (List.nodup_cons.mp (List.nodup_append.mp hnodup).2.1).1
    by_cases hsame : other = name
    · subst hsame
      obtain rfl := Option.some.inj (hnode.symm.trans hold)
      obtain ⟨hselection, hplain⟩ := Pass.get?_selectPlan hseen
      refine ⟨_, by rw [hafter, if_pos rfl], ?_, fun hmem => absurd hmem hfresh, ?_⟩
      · rw [Node.relabel_isControlPlane hplain, hrole]
      · intro _ _
        refine ⟨Node.isSelectedFor_iff.mpr (Node.relabel_marker? hselection), ?_⟩
        rw [List.getLast?_concat]
    · -- the node that was the last one is at the target, so it has no claim to be the last any more
      refine ⟨node, by rw [hafter, if_neg hsame, hnode], hrole, ?_, ?_⟩
      · intro hmem
        exact htodo (List.mem_cons_of_mem _ hmem)
      · intro hnot hneeds
        have hnot' : other ∉ name :: todo := by simp [hsame, hnot]
        obtain ⟨-, hlast⟩ := hrest hnot' hneeds
        have hat := hlanded other (hs.marked ▸ hlast) node hnode
        simp [hat] at hneeds
  absent := by
    intro other hother
    obtain ⟨old, version, hold, hafter⟩ := hw.find?
    have hnone := hs.absent other hother
    have hne : other ≠ seen.name := by
      rintro rfl
      rw [hold] at hnone
      cases hnone
    rw [hafter, if_neg hne, hnone]

theorem At.finished (hs : s.At r spec done []) (hlanded : s.Landed spec) :
    s.marked = r.targets spec ∧ ∀ name ∈ r.order, s.nodes.AtTarget spec name := by
  refine ⟨by rw [hs.marked, ← hs.split, List.append_nil], ?_⟩
  intro name hname node hnode
  obtain ⟨node', hnode', -, -, hrest⟩ := hs.stored name hname
  obtain rfl := Option.some.inj (hnode.symm.trans hnode')
  by_contra hne
  have hlast := (hrest List.not_mem_nil (by simpa using hne)).2
  exact hne (hlanded name (hs.marked ▸ hlast) node hnode)

theorem At.last_of_underWay {name : String} {node : Node} (hs : s.At r spec done todo)
    (hname : name ∈ r.order) (hnode : s.nodes.find? name = some node)
    (hway : node.isUnderWay spec = true) : done.getLast? = some name := by
  obtain ⟨node', hnode', -, htodo, hrest⟩ := hs.stored name hname
  obtain rfl := Option.some.inj (hnode.symm.trans hnode')
  obtain ⟨hselected, hneeds⟩ := Bool.and_eq_true_iff.mp hway
  by_cases hmem : name ∈ todo
  · have hcandidate := htodo hmem
    simp [Node.isCandidate, hselected] at hcandidate
  · exact (hrest hmem hneeds).2

/-- A node is a candidate exactly while it is to be marked. -/
theorem At.isCandidate_iff {name : String} {node : Node} (hs : s.At r spec done todo)
    (hname : name ∈ r.order) (hnode : s.nodes.find? name = some node) :
    node.isCandidate spec = true ↔ name ∈ todo := by
  obtain ⟨node', hnode', -, htodo, hrest⟩ := hs.stored name hname
  obtain rfl := Option.some.inj (hnode.symm.trans hnode')
  constructor
  · intro hcandidate
    obtain ⟨hplain, hneeds⟩ := Bool.and_eq_true_iff.mp hcandidate
    by_contra hnot
    simp [(hrest hnot hneeds).1] at hplain
  · exact htodo

/-- The rollout is in its first tier, or it is in the second and the first is done. -/
theorem At.tiers (hs : s.At r spec done todo) :
    (∃ ahead, r.controlPlane spec = done ++ ahead ∧ todo = ahead ++ r.workers spec) ∨
      ∃ behind, done = r.controlPlane spec ++ behind ∧ r.workers spec = behind ++ todo :=
  List.append_eq_append_iff.mp hs.split

/-- A control-plane node that is to be marked goes before every worker. -/
theorem At.cons_of_filter {name : String} {rest : List String} (hs : s.At r spec done todo)
    (hfilter : todo.filter r.isControlPlane = name :: rest) : ∃ rest', todo = name :: rest' := by
  obtain ⟨hmem, hrole⟩ := List.mem_filter.mp (hfilter ▸ List.mem_cons_self)
  rcases hs.tiers with ⟨ahead, hcp, rfl⟩ | ⟨behind, -, hworkers⟩
  · have hahead : ahead.filter r.isControlPlane = ahead := by
      rw [List.filter_eq_self]
      intro other hother
      exact Roster.isControlPlane_of_mem (hcp ▸ List.mem_append_right done hother)
    rw [List.filter_append, hahead, Roster.filter_workers, List.append_nil] at hfilter
    exact ⟨_, by rw [hfilter, List.cons_append]⟩
  · have hworker := Roster.not_controlPlane_of_mem (hworkers ▸ List.mem_append_right behind hmem)
    simp [hworker] at hrole

/-- While a control-plane node is to be marked, those that are marked are of the control plane. -/
theorem At.isControlPlane_of_mem {name : String} (hs : s.At r spec done todo)
    (hfilter : todo.filter r.isControlPlane ≠ []) (hname : name ∈ done) :
    r.isControlPlane name = true := by
  rcases hs.tiers with ⟨ahead, hcp, -⟩ | ⟨behind, -, hworkers⟩
  · exact Roster.isControlPlane_of_mem (hcp ▸ List.mem_append_left ahead hname)
  · refine absurd (List.filter_eq_nil_iff.mpr fun other hother => ?_) hfilter
    simp [Roster.not_controlPlane_of_mem (hworkers ▸ List.mem_append_right behind hother)]

/-- The candidates of one tier of a list, in its order, are what is to be marked of that tier. -/
theorem At.map_candidates {nodes : List Node} {p : Node → Bool} {q : String → Bool}
    (hs : s.At r spec done todo) (hnames : nodes.map Node.name = r.order)
    (hstored : ∀ node ∈ nodes, s.nodes.find? node.name = some node)
    (hp : ∀ node ∈ nodes, p node = q node.name) (hq : (todo.filter q).Sublist r.order) :
    ((nodes.filter p).filter (·.isCandidate spec)).map Node.name = todo.filter q := by
  have hchosen : (nodes.filter p).filter (·.isCandidate spec) =
      nodes.filter ((fun name => decide (name ∈ todo.filter q)) ∘ Node.name) := by
    rw [List.filter_filter]
    refine List.filter_congr fun node hnode => ?_
    have hname : node.name ∈ r.order := hnames ▸ List.mem_map_of_mem hnode
    rw [Bool.eq_iff_iff, Bool.and_eq_true, hs.isCandidate_iff hname (hstored node hnode),
      hp node hnode]
    simp
  rw [hchosen, ← List.filter_map, hnames]
  -- two sublists of the order with the same names
  have hsub : (todo.filter q).Sublist
      (r.order.filter fun name => decide (name ∈ todo.filter q)) := by
    have hself : (todo.filter q).filter (fun name => decide (name ∈ todo.filter q)) =
        todo.filter q := by
      rw [List.filter_eq_self]
      intro name hname
      exact decide_eq_true hname
    have hfiltered := hq.filter fun name => decide (name ∈ todo.filter q)
    rwa [hself] at hfiltered
  refine (hsub.eq_of_length_le ?_).symm
  refine List.Nodup.length_le_of_subset (r.nodup.filter _) fun name hname => ?_
  exact of_decide_eq_true (List.mem_filter.mp hname).2

end Scene

end NodeRollout
