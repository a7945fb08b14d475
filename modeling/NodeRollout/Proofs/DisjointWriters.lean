import NodeRollout.Proofs.Interleaving
import NodeRollout.Proofs.Writers

/-! Passes and proxies at work on one store, interleaved call by call. Each label that changes is
changed by the one loop that may change it so, and everything else about the nodes stays. -/
namespace NodeRollout

namespace Label

/-- A label that records a finished upgrade to some version. -/
def IsCompletion (key : String) : Prop := completedStart.toList <+: key.toList

theorem isCompletion_completed (version : String) : IsCompletion (completed version) := by
  rw [IsCompletion, completed, String.toList_append]
  exact List.prefix_append ..

theorem IsCompletion.ne_selection {key : String} (h : IsCompletion key) : key ≠ selection := by
  rintro rfl
  have hnot : ¬ completedStart.toList <+: selection.toList := by decide
  exact hnot h

end Label

namespace Node

/-- The same node, but for its version and for the labels that the loops write. -/
structure Keeps (old new : Node) : Prop where
  rest : new = { old with labels := new.labels, resourceVersion := new.resourceVersion }
  labels : ∀ key, key ≠ Label.selection → ¬ Label.IsCompletion key →
    new.labels.get? key = old.labels.get? key

theorem Keeps.refl (node : Node) : node.Keeps node := ⟨rfl, fun _ _ _ => rfl⟩

theorem Keeps.trans {a b c : Node} (h : a.Keeps b) (h' : b.Keeps c) : a.Keeps c where
  rest := by
    rw [h'.rest, h.rest]
  labels key hselection hcompletion :=
    (h'.labels key hselection hcompletion).trans (h.labels key hselection hcompletion)

theorem Keeps.trans_rel {a b c : Option Node} (h : Option.Rel Keeps a b)
    (h' : Option.Rel Keeps b c) : Option.Rel Keeps a c := by
  cases h with
  | none => exact h'
  | some hab =>
    cases h' with
    | some hbc => exact .some (hab.trans hbc)

theorem get?_relabel (node : Node) (changes : LabelChanges) (version : Option String)
    (key : String) : (node.relabel changes version).labels.get? key =
      (changes.get? key).getD (node.labels.get? key) :=
  Labels.get?_apply node.labels changes key

end Node

namespace History

variable {h h' h'' : History}

/-- The same nodes are stored, each but for its version and for the labels that the loops write. -/
def Keeps (h h' : History) : Prop :=
  ∀ name, Option.Rel Node.Keeps (h.find? name) (h'.find? name)

theorem Keeps.refl (h : History) : h.Keeps h := by
  intro name
  cases h.find? name with
  | none => exact .none
  | some node => exact .some (Node.Keeps.refl node)

theorem Keeps.trans (a : h.Keeps h') (b : h'.Keeps h'') : h.Keeps h'' :=
  fun name => Node.Keeps.trans_rel (a name) (b name)

end History

namespace Sync

variable {spec : Spec} {changes : LabelChanges} {key : String}

theorem Clears.get?_selection (h : Clears spec changes) :
    changes.get? Label.selection = some none := by
  rcases h with rfl | ⟨-, rfl⟩
  · simp
  · simp [(Label.completed_ne_selection spec.kubeVersion).symm]

theorem Clears.get?_completion (h : Clears spec changes) (hkey : Label.IsCompletion key) :
    changes.get? key = none ∨ changes.get? key = some (some Label.completedValue) := by
  rcases h with rfl | ⟨-, rfl⟩
  · simp [hkey.ne_selection]
  · by_cases hversion : key = Label.completed spec.kubeVersion
    · simp [hversion]
    · simp [hversion, hkey.ne_selection]

theorem Clears.get?_other (h : Clears spec changes) (hselection : key ≠ Label.selection)
    (hcompletion : ¬ Label.IsCompletion key) : changes.get? key = none := by
  have hversion : key ≠ Label.completed spec.kubeVersion := by
    rintro rfl
    exact hcompletion (Label.isCompletion_completed spec.kubeVersion)
  rcases h with rfl | ⟨-, rfl⟩
  · simp [hselection]
  · simp [hselection, hversion]

end Sync

/-- Who acts: the coordinator by its passes, or the proxy of a node. -/
inductive Writer where
  | coordinator
  | proxy (node : String)
  deriving DecidableEq

namespace Writer

/-- The changes that each makes to the node of this name. -/
def Writes : Writer → String → LabelChanges → Prop
  | .coordinator, _, changes =>
    ∃ spec : Spec, changes = .singleton Label.selection (some spec.selectionValue)
  | .proxy node, name, changes => name = node ∧ ∃ spec, Sync.Clears spec changes

/-- What each does to the nodes by one call. -/
def Does (w : Writer) (h h' : History) : Prop :=
  h' = h ∨ ∃ seen changes, w.Writes seen.name changes ∧ h.Writes seen changes h'

/-- What each may do to a node. Only the coordinator sets the marker, and only the proxy of that very
node takes it away or records that it reached a target. -/
structure Owns (w : Writer) (old new : Node) : Prop where
  sets : ∀ value, new.marker? = some value → old.marker? ≠ some value → w = .coordinator
  removes : old.marker?.isSome → new.marker? = none → w = .proxy old.name
  completes : ∀ key, Label.IsCompletion key → new.labels.get? key ≠ old.labels.get? key →
    w = .proxy old.name ∧ new.labels.get? key = some Label.completedValue

variable {w : Writer} {name : String} {changes : LabelChanges} {h h' : History} {old new : Node}

theorem Owns.refl (w : Writer) (node : Node) : w.Owns node node where
  sets _ hnew hold := absurd hnew hold
  removes hsome hnone := by simp [hnone] at hsome
  completes _ _ hne := absurd rfl hne

theorem Writes.keeps (hw : w.Writes name changes) (version : Option String) :
    old.Keeps (old.relabel changes version) where
  rest := rfl
  labels key hselection hcompletion := by
    have hnone : changes.get? key = none := by
      cases w with
      | coordinator =>
        obtain ⟨spec, rfl⟩ := hw
        simp [hselection]
      | proxy node =>
        obtain ⟨-, spec, hclears⟩ := hw
        exact hclears.get?_other hselection hcompletion
    rw [Node.get?_relabel, hnone, Option.getD_none]

theorem Writes.owns (hw : w.Writes old.name changes) (version : Option String) :
    w.Owns old (old.relabel changes version) := by
  cases w with
  | coordinator =>
    obtain ⟨spec, hchanges⟩ := hw
    have hmarker : (old.relabel changes version).marker? = some spec.selectionValue :=
      Node.relabel_marker? (by simp [hchanges])
    refine ⟨fun _ _ _ => rfl, ?_, ?_⟩
    · intro _ hnone
      rw [hmarker] at hnone
      cases hnone
    · intro key hkey hne
      simp [Node.get?_relabel, hchanges, hkey.ne_selection] at hne
  | proxy node =>
    obtain ⟨rfl, spec, hclears⟩ := hw
    have hmarker : (old.relabel changes version).marker? = none :=
      Node.relabel_marker? hclears.get?_selection
    refine ⟨?_, fun _ _ => rfl, ?_⟩
    · intro value hvalue
      rw [hmarker] at hvalue
      cases hvalue
    · intro key hkey hne
      rw [Node.get?_relabel] at hne ⊢
      rcases hclears.get?_completion hkey with hnone | htrue
      · rw [hnone, Option.getD_none] at hne
        exact absurd rfl hne
      · exact ⟨rfl, by rw [htrue, Option.getD_some]⟩

theorem Does.keeps (hd : w.Does h h') : h.Keeps h' := by
  intro name
  rcases hd with rfl | ⟨seen, changes, hw, hwrites⟩
  · exact History.Keeps.refl h' name
  · obtain ⟨old, version, hold, hafter⟩ := hwrites.find?
    rw [hafter]
    split
    next hname =>
      rw [hname, hold]
      exact .some (hw.keeps version)
    next => exact History.Keeps.refl h name

theorem Does.owns (hd : w.Does h h') (hold : h.find? name = some old)
    (hnew : h'.find? name = some new) : w.Owns old new := by
  rcases hd with rfl | ⟨seen, changes, hw, hwrites⟩
  · obtain rfl := Option.some.inj (hold.symm.trans hnew)
    exact Owns.refl w old
  · obtain ⟨old', version, hold', hafter⟩ := hwrites.find?
    rw [hafter] at hnew
    split at hnew
    next hname =>
      obtain rfl := Option.some.inj (hold.symm.trans (hname ▸ hold'))
      obtain rfl := Option.some.inj hnew
      have hseen : seen.name = old.name := (History.name_of_find? hold').symm
      exact (hseen ▸ hw).owns version
    next =>
      obtain rfl := Option.some.inj (hold.symm.trans hnew)
      exact Owns.refl w old

theorem named_freely : History.freely.Named :=
  fun hserves => History.name_of_find? (hserves.2 _ rfl)

theorem quiet_freely (w : Writer) : History.freely.Quiet (across w.Does) :=
  fun hc hserves => .inl (History.Serves.eq_of_read hserves hc)

theorem does_of_serves {seen : Node} {answer : Except Failure Unit}
    (hw : w.Writes seen.name changes) (hserves : h.Serves (.patch seen changes) answer h') :
    w.Does h h' := by
  rcases hserves with hwrites | ⟨rfl, -⟩
  · exact .inr ⟨seen, changes, hw, hwrites⟩
  · exact .inl rfl

theorem assures_pass (settings : Settings) (spec : Spec) (h : History) :
    Assures History.freely (across coordinator.Does) (Pass.run settings spec).run
      (fun _ _ => True) h := by
  refine Pass.assures_run_of_selects (F := fun nodes node _ => node.name ∈ nodes.map Node.name)
    (fun nodes => ?_) fun _ _ => List.mem_map_of_mem
  refine Pass.selects_of_named named_freely (quiet_freely coordinator) ?_
  exact fun _ hserves => does_of_serves ⟨spec, rfl⟩ hserves

theorem assures_proxy (self : String) (node : Node) (h : History) :
    Assures History.freely (across (proxy self).Does) (Proxy.reconcile self node).run
      (fun _ _ => True) h := by
  refine Proxy.assures_reconcile named_freely (quiet_freely (proxy self)) ?_
  exact fun hname hclears hserves => does_of_serves ⟨hname, _, hclears⟩ hserves

end Writer

/-- The stored nodes and the loops at work on them, each proxy under the name of its node. -/
structure Loops where
  nodes : History
  passes : List (Program Cluster (Except Failure PassOutcome)) := []
  proxies : List (String × Program Cluster (Except Failure Requeue)) := []

namespace Loops

/-- One step, with the one who makes it: a loop begins or is left, or it makes a call. Nobody else
touches the nodes. -/
inductive Step : Writer → Loops → Loops → Prop where
  | beginPass {s : Loops} (settings : Settings) (spec : Spec) :
      Step .coordinator s { s with passes := (Pass.run settings spec).run :: s.passes }
  | callPass {s : Loops} {nodes : History} {c : ClusterCall} {answer : c.Answer}
      {next : c.Answer → Program Cluster (Except Failure PassOutcome)}
      {before after : List (Program Cluster (Except Failure PassOutcome))}
      (passes : s.passes = before ++ .ask c next :: after)
      (serves : s.nodes.Serves c answer nodes) :
      Step .coordinator s { s with nodes, passes := before ++ next answer :: after }
  | leavePass {s : Loops} {p : Program Cluster (Except Failure PassOutcome)}
      {before after : List (Program Cluster (Except Failure PassOutcome))}
      (passes : s.passes = before ++ p :: after) :
      Step .coordinator s { s with passes := before ++ after }
  | beginProxy {s : Loops} (self : String) (node : Node) :
      Step (.proxy self) s
        { s with proxies := (self, (Proxy.reconcile self node).run) :: s.proxies }
  | callProxy {s : Loops} {nodes : History} {self : String} {c : ClusterCall} {answer : c.Answer}
      {next : c.Answer → Program Cluster (Except Failure Requeue)}
      {before after : List (String × Program Cluster (Except Failure Requeue))}
      (proxies : s.proxies = before ++ (self, .ask c next) :: after)
      (serves : s.nodes.Serves c answer nodes) :
      Step (.proxy self) s { s with nodes, proxies := before ++ (self, next answer) :: after }
  | leaveProxy {s : Loops} {self : String} {p : Program Cluster (Except Failure Requeue)}
      {before after : List (String × Program Cluster (Except Failure Requeue))}
      (proxies : s.proxies = before ++ (self, p) :: after) :
      Step (.proxy self) s { s with proxies := before ++ after }

/-- What the loops at work still assure. -/
structure Invariant (s : Loops) : Prop where
  passes : ∀ p ∈ s.passes,
    Assures History.freely (across Writer.coordinator.Does) p (fun _ _ => True) s.nodes
  proxies : ∀ e ∈ s.proxies,
    Assures History.freely (across (Writer.proxy e.1).Does) e.2 (fun _ _ => True) s.nodes

variable {s t : Loops} {w : Writer}

theorem Invariant.step (hi : s.Invariant) (hstep : Step w s t) :
    t.Invariant ∧ w.Does s.nodes t.nodes := by
  cases hstep with
  | beginPass settings spec =>
    have hpass := Writer.assures_pass settings spec s.nodes
    exact ⟨⟨List.forall_mem_cons.mpr ⟨hpass, hi.passes⟩, hi.proxies⟩, .inl rfl⟩
  | @callPass _ nodes c answer next before after passes serves =>
    have hpasses := passes ▸ hi.passes
    rw [List.forall_mem_append, List.forall_mem_cons] at hpasses
    obtain ⟨hbefore, hpass, hafter⟩ := hpasses
    -- the pass goes on with its answer, and for the other loops the call is what others do
    obtain ⟨hdoes, hnext⟩ := hpass s.nodes trivial answer nodes serves
    refine ⟨⟨?_, fun e he => (hi.proxies e he).others trivial⟩, hdoes⟩
    refine List.forall_mem_append.mpr ⟨?_, List.forall_mem_cons.mpr ⟨hnext, ?_⟩⟩
    · exact fun p hp => (hbefore p hp).others trivial
    · exact fun p hp => (hafter p hp).others trivial
  | @leavePass _ p before after passes =>
    have hpasses := passes ▸ hi.passes
    rw [List.forall_mem_append, List.forall_mem_cons] at hpasses
    obtain ⟨hbefore, -, hafter⟩ := hpasses
    exact ⟨⟨List.forall_mem_append.mpr ⟨hbefore, hafter⟩, hi.proxies⟩, .inl rfl⟩
  | beginProxy self node =>
    have hproxy := Writer.assures_proxy self node s.nodes
    exact ⟨⟨hi.passes, List.forall_mem_cons.mpr ⟨hproxy, hi.proxies⟩⟩, .inl rfl⟩
  | @callProxy _ nodes self c answer next before after proxies serves =>
    have hproxies := proxies ▸ hi.proxies
    rw [List.forall_mem_append, List.forall_mem_cons] at hproxies
    obtain ⟨hbefore, hproxy, hafter⟩ := hproxies
    obtain ⟨hdoes, hnext⟩ := hproxy s.nodes trivial answer nodes serves
    refine ⟨⟨fun p hp => (hi.passes p hp).others trivial, ?_⟩, hdoes⟩
    refine List.forall_mem_append.mpr ⟨?_, List.forall_mem_cons.mpr ⟨hnext, ?_⟩⟩
    · exact fun e he => (hbefore e he).others trivial
    · exact fun e he => (hafter e he).others trivial
  | @leaveProxy _ self p before after proxies =>
    have hproxies := proxies ▸ hi.proxies
    rw [List.forall_mem_append, List.forall_mem_cons] at hproxies
    obtain ⟨hbefore, -, hafter⟩ := hproxies
    exact ⟨⟨hi.passes, List.forall_mem_append.mpr ⟨hbefore, hafter⟩⟩, .inl rfl⟩

/-- A run of steps, whoever makes them. -/
abbrev Reaches : Loops → Loops → Prop := Relation.ReflTransGen fun s t => ∃ w, Step w s t

theorem Invariant.run (hi : s.Invariant) (hrun : s.Reaches t) :
    t.Invariant ∧ s.nodes.Keeps t.nodes := by
  induction hrun with
  | refl => exact ⟨hi, History.Keeps.refl s.nodes⟩
  | tail _ hstep ih =>
    obtain ⟨w, hstep⟩ := hstep
    obtain ⟨hi', hdoes⟩ := ih.1.step hstep
    exact ⟨hi', ih.2.trans hdoes.keeps⟩

theorem invariant_idle (h : History) : Invariant ⟨h, [], []⟩ :=
  ⟨List.forall_mem_nil _, List.forall_mem_nil _⟩

end Loops

open Program in
/-- Each loop writes its own labels of its own nodes, whatever its calls are answered. So in every
interleaving of them nothing else of a node changes, and what changes is changed by its owner. -/
theorem Loops.writers_disjoint :
    (∀ settings spec events result, Runs (Pass.run settings spec).run events result →
      (∀ e ∈ events, e.Named) → Pass.MarksListed spec events ∧
        (spec.isNoop = true → events = [])) ∧
    (∀ node spec events result, Runs (Sync.run node spec).run events result →
      (∀ e ∈ events, e.Named) → Sync.ClearsOwn node spec events ∧
        (spec.isNoop = true → events = [])) ∧
    (∀ self node events result, Runs (Proxy.reconcile self node).run events result →
      node.name ≠ self → events = []) ∧
    (∀ nodes t, Reaches ⟨nodes, [], []⟩ t → nodes.Keeps t.nodes ∧
      ∀ w u, Step w t u → ∀ name old new, t.nodes.find? name = some old →
        u.nodes.find? name = some new → w.Owns old new) := by
  refine ⟨?_, ?_, ?_, ?_⟩
  · exact fun settings spec events result hrun => Pass.marksListed_of_runs hrun
  · exact fun node spec events result hrun => Sync.clearsOwn_of_runs hrun
  · intro self node events result hrun hname
    rw [Proxy.run_reconcile_other hname] at hrun
    cases hrun
    rfl
  · intro nodes t hrun
    obtain ⟨hi, hkeeps⟩ := (invariant_idle nodes).run hrun
    refine ⟨hkeeps, ?_⟩
    intro w u hstep name old new hold hnew
    exact (hi.step hstep).2.owns hold hnew

/-- A pass is about to mark the control-plane node. -/
theorem Loops.writers_disjoint_marking : ∃ t u,
    Reaches ⟨Fleet.oldNodes, [], []⟩ t ∧ Step .coordinator t u ∧ u.nodes = Fleet.markedNodes ∧
      Writer.coordinator.Owns Fleet.oldControlPlane Fleet.markedControlPlane := by
  have hlist : Fleet.oldNodes.Serves .list (.ok [Fleet.oldControlPlane, Fleet.oldWorker])
      Fleet.oldNodes := by
    refine ⟨rfl, ?_⟩
    rintro nodes ⟨⟩
    exact Fleet.isSnapshot_oldNodes
  have hpatch : Fleet.oldNodes.Serves (.patch Fleet.oldControlPlane
      (Pass.selectPlan Fleet.sampleSpec Fleet.oldControlPlane)) (.ok ()) Fleet.markedNodes :=
    .inl ⟨Fleet.oldControlPlane, some "2", by decide, by decide, .inl rfl⟩
  have hbegun : Reaches ⟨Fleet.oldNodes, [], []⟩ _ :=
    .single ⟨.coordinator, .beginPass {} Fleet.sampleSpec⟩
  have hlisted := hbegun.tail ⟨.coordinator, .callPass (List.nil_append _).symm hlist⟩
  have howns := (writers_disjoint.2.2.2 _ _ hlisted).2 .coordinator _
    (.callPass (List.nil_append _).symm hpatch) "cp1" Fleet.oldControlPlane
    Fleet.markedControlPlane (by decide) (by decide)
  exact ⟨_, _, hlisted, .callPass (List.nil_append _).symm hpatch, rfl, howns⟩

end NodeRollout
