import Mathlib.Data.List.Nodup
import NodeRollout.Proofs.Interleaving
import NodeRollout.Proofs.Transcript

/-! How many nodes one pass marks, and in what order, whatever its calls are answered. The store
need not behave: its answers are any that list no name twice and give a record of the name that was
asked for. -/
namespace NodeRollout

namespace Program.Event

/-- A list names no node twice, and a read gives a record of the node that was asked for. -/
def Sensible : Event Cluster → Prop
  | ⟨.list, .ok nodes⟩ => (nodes.map Node.name).Nodup
  | ⟨.get asked, .ok node⟩ => node.name = asked
  | _ => True

/-- A write sets the marker of a node that may be marked, and it is planned on a record without the
marker. -/
def Plans (spec : Spec) (may : String → Prop) : Event Cluster → Prop
  | ⟨.patch seen changes, _⟩ => seen.isSelectedFor spec = false ∧
      changes = Pass.selectPlan spec seen ∧ may seen.name
  | _ => True

theorem marked?_of_read {c : ClusterCall} {answer : c.Answer} (hc : c.isWrite = false) :
    marked? ⟨c, answer⟩ = none := by
  cases c with
  | patch => cases hc
  | _ => rfl

theorem plans_of_read {c : ClusterCall} {answer : c.Answer} (hc : c.isWrite = false) (spec : Spec)
    (may : String → Prop) : Plans spec may ⟨c, answer⟩ := by
  cases c with
  | patch => cases hc
  | _ => trivial

end Program.Event

open Program

namespace Pass

variable {spec : Spec} {name : String} {log : List (Event Cluster)} {e : Event Cluster}

def attempts (log : List (Event Cluster)) : List String := log.filterMap Event.tried?

/-- The marked nodes, in the order of the writes. -/
def selections (log : List (Event Cluster)) : List String := log.filterMap Event.marked?

/-- The node was marked, and no read after that showed it at the target. -/
def Pending (spec : Spec) (name : String) (log : List (Event Cluster)) : Prop :=
  ∃ mark after, mark :: after <:+ log ∧ mark.marked? = some name ∧
    ∀ e ∈ after, e.shows spec name = false

/-- Each mark was set while no marked node was pending. -/
def Spaced (spec : Spec) (log : List (Event Cluster)) : Prop :=
  ∀ before mark, before ++ [mark] <+: log → mark.marked?.isSome →
    ∀ name, ¬ Pending spec name before

theorem Pending.of_concat (h : Pending spec name (log ++ [e])) :
    e.marked? = some name ∨ e.shows spec name = false ∧ Pending spec name log := by
  -- the call is the mark itself, or it comes after the mark
  obtain ⟨mark, after, hsuffix, hmark, hafter⟩ := h
  rw [List.suffix_concat_iff] at hsuffix
  obtain ⟨rest, hrest, hlog⟩ := hsuffix.resolve_left (List.cons_ne_nil _ _)
  cases rest with
  | nil =>
    obtain ⟨rfl, rfl⟩ := List.cons.inj hrest
    exact .inl hmark
  | cons first rest =>
    obtain ⟨rfl, rfl⟩ := List.cons.inj hrest
    refine .inr ⟨hafter e (by simp), mark, rest, hlog, hmark, ?_⟩
    intro e' he'
    exact hafter e' (by simp [he'])

theorem not_pending_nil : ¬ Pending spec name [] := by
  rintro ⟨mark, after, hsuffix, -⟩
  exact List.cons_ne_nil _ _ (List.suffix_nil.mp hsuffix)

theorem Spaced.concat (h : Spaced spec log)
    (hmark : e.marked?.isSome → ∀ name, ¬ Pending spec name log) : Spaced spec (log ++ [e]) := by
  intro before mark hprefix
  rw [List.prefix_concat_iff] at hprefix
  rcases hprefix with heq | hprefix
  · obtain ⟨rfl, hlast⟩ := List.append_inj' heq rfl
    obtain rfl : mark = e := by simpa using hlast
    exact hmark
  · exact h before mark hprefix

/-- Between two marks the first of the two nodes is read at the target. -/
theorem Spaced.exists_shows (h : Spaced spec log) {before between after : List (Event Cluster)}
    {x y : Event Cluster} (hlog : log = before ++ x :: between ++ y :: after)
    (hx : x.marked? = some name) (hy : y.marked?.isSome) :
    ∃ e ∈ between, e.shows spec name = true := by
  have hprefix : (before ++ x :: between) ++ [y] <+: log := ⟨after, by simp [hlog]⟩
  by_contra hnone
  refine h _ y hprefix hy name ⟨x, between, List.suffix_append before _, hx, ?_⟩
  intro e he
  by_contra hshows
  exact hnone ⟨e, he, by simpa using hshows⟩

/-- What a pass has written by some point: its writes are planned for nodes that it may mark, the
marks are among `done` in this order, and only nodes that may be `awaited` are pending. -/
structure Marking (spec : Spec) (may : String → Prop) (done : List String)
    (awaited : String → Prop) (log : List (Event Cluster)) : Prop where
  planned : ∀ e ∈ log, e.Plans spec may
  marks : (selections log).Sublist done
  spaced : Spaced spec log
  pending : ∀ name, Pending spec name log → awaited name

/-- Nothing was written. -/
abbrev Untouched (spec : Spec) (log : List (Event Cluster)) : Prop :=
  Marking spec (fun _ => False) [] (fun _ => False) log

variable {may : String → Prop} {done : List String} {awaited awaited' : String → Prop}

namespace Marking

theorem nil : Marking spec may done awaited [] where
  planned := List.forall_mem_nil _
  marks := List.nil_sublist done
  spaced before mark hprefix := by simp at hprefix
  pending name h := absurd h not_pending_nil

theorem mono {may' : String → Prop} {done' : List String} (h : Marking spec may done awaited log)
    (hmay : ∀ name, may name → may' name) (hdone : done.Sublist done')
    (hawaited : ∀ name, awaited name → awaited' name) : Marking spec may' done' awaited' log where
  planned e he := by
    have hplans := h.planned e he
    obtain ⟨c, answer⟩ := e
    cases c with
    | patch seen changes => exact ⟨hplans.1, hplans.2.1, hmay _ hplans.2.2⟩
    | _ => trivial
  marks := h.marks.trans hdone
  spaced := h.spaced
  pending name hname := hawaited name (h.pending name hname)

/-- With no node pending, more nodes may be marked from here on. -/
theorem before (h : Marking spec may done (fun _ => False) log) (more : List String) :
    Marking spec may (done ++ more) awaited log :=
  h.mono (fun _ => id) (List.sublist_append_left done more) (fun _ => False.elim)

/-- After a call that marks nothing, a node that it shows is not awaited any more. -/
theorem unmarked (h : Marking spec may done awaited log) (hplans : e.Plans spec may)
    (hmarked : e.marked? = none)
    (hawaited : ∀ name, awaited name → e.shows spec name = false → awaited' name) :
    Marking spec may done awaited' (log ++ [e]) where
  planned := List.forall_mem_append.mpr ⟨h.planned, List.forall_mem_singleton.mpr hplans⟩
  marks := by simpa [selections, hmarked] using h.marks
  spaced := h.spaced.concat fun hsome => by simp [hmarked] at hsome
  pending name hname := by
    rcases hname.of_concat with hmark | ⟨hnot, hname⟩
    · rw [hmarked] at hmark
      cases hmark
    · exact hawaited name (h.pending name hname) hnot

theorem quiet {c : ClusterCall} {answer : c.Answer} (h : Marking spec may done awaited log)
    (hc : c.isWrite = false) : Marking spec may done awaited (log ++ [⟨c, answer⟩]) :=
  h.unmarked (Event.plans_of_read hc spec may) (Event.marked?_of_read hc) fun _ hname _ => hname

theorem shown {c : ClusterCall} {answer : c.Answer} (h : Marking spec may done (· = name) log)
    (hc : c.isWrite = false) (hshows : Event.shows spec name ⟨c, answer⟩ = true) :
    Marking spec may done (fun _ => False) (log ++ [⟨c, answer⟩]) := by
  refine h.unmarked (Event.plans_of_read hc spec may) (Event.marked?_of_read hc) ?_
  rintro other rfl hnot
  simp [hshows] at hnot

theorem refused {seen : Node} {failure : Failure} (h : Marking spec may done awaited log)
    (hseen : seen.isSelectedFor spec = false) (hmay : may seen.name) :
    Marking spec may done awaited
      (log ++ [⟨.patch seen (selectPlan spec seen), .error failure⟩]) :=
  h.unmarked ⟨hseen, rfl, hmay⟩ rfl fun _ hname _ => hname

theorem marked {seen : Node} (h : Marking spec may done (fun _ => False) log)
    (hseen : seen.isSelectedFor spec = false) (hmay : may seen.name) :
    Marking spec may (done ++ [seen.name]) (· = seen.name)
      (log ++ [⟨.patch seen (selectPlan spec seen), .ok ()⟩]) where
  planned := List.forall_mem_append.mpr
    ⟨h.planned, List.forall_mem_singleton.mpr ⟨hseen, rfl, hmay⟩⟩
  marks := by
    have hmarked : Event.marked? ⟨.patch seen (selectPlan spec seen), .ok ()⟩ =
        some seen.name := rfl
    simpa [selections, hmarked] using h.marks
  spaced := h.spaced.concat fun _ => h.pending
  pending name hname := by
    rcases hname.of_concat with hmark | ⟨-, hname⟩
    · exact (Option.some.inj hmark).symm
    · exact absurd hname (h.pending name)

theorem tried (h : Marking spec may done awaited log) : ∀ name ∈ attempts log, may name := by
  intro name hname
  obtain ⟨⟨c, answer⟩, he, htried⟩ := List.mem_filterMap.mp hname
  have hplans := h.planned _ he
  cases c with
  | patch seen changes => exact Option.some.inj htried ▸ hplans.2.2
  | _ => cases htried

end Marking

theorem stable_marking {ok : Event Cluster → Prop} :
    Stable (logged ok) (fun s => Marking spec may done awaited s.2) where
  others ho h := ho.2 ▸ h
  calls hc hs h := hs.2 ▸ h.quiet hc

variable {s : Unit × List (Event Cluster)}

/-- The environment of a pass: its answers are sensible, and nothing else is asked of them. -/
abbrev sensibly : Setting Cluster (Unit × List (Event Cluster)) := logged Event.Sensible

theorem assures_select_marking {node : Node} (hmay : may node.name)
    (h : Marking spec may done (fun _ => False) s.2) :
    Assures sensibly (fun _ => True) (select spec node).run
      (fun s _ => Marking spec may (done ++ [node.name]) (· = node.name) s.2) s := by
  refine assures_select_of_update stable_marking (fun _ _ _ => trivial) ?_
  -- until a write is carried out nothing more is marked; the write that is, marks `node`
  have hunmarked : ∀ {log}, Marking spec may done (fun _ => False) log →
      Marking spec may (done ++ [node.name]) (· = node.name) log := fun h => h.before [node.name]
  refine LabelUpdate.assures_attempt (P := fun seen => seen.name = node.name)
    (K := fun _ s => Marking spec may done (fun _ => False) s.2) stable_marking.others
    stable_marking.others hunmarked (fun _ h _ => hunmarked h) ?_ ?_ LabelUpdate.maxAttempts rfl h
  · rintro n ⟨⟨⟩, log⟩ seen answer ⟨⟨⟩, log'⟩ hname hlog hplan ⟨-, rfl⟩
    have hseen : seen.isSelectedFor spec = false := isEmpty_selectPlan.symm.trans hplan
    have hmay' : may seen.name := hname ▸ hmay
    refine ⟨trivial, ?_⟩
    match answer with
    | .ok () => exact hname ▸ hlog.marked hseen hmay'
    | .error (.conflict _) => exact hlog.refused hseen hmay'
    | .error (.kube _) | .error (.nodeNotFound _) | .error (.selectionTimeout ..)
    | .error (.rpcUnavailable ..) | .error (.remote _) | .error (.protocol _)
    | .error (.commandFailed ..) | .error (.io _) =>
      exact hunmarked (hlog.refused hseen hmay')
  · rintro n ⟨⟨⟩, log⟩ answer ⟨⟨⟩, log'⟩ hlog ⟨hsensible, rfl⟩
    refine ⟨trivial, ?_⟩
    have hquiet : Marking spec may done (fun _ => False) (log ++ [⟨.get node.name, answer⟩]) :=
      hlog.quiet rfl
    cases answer with
    | ok seen => exact ⟨hsensible, hquiet⟩
    | error failure => exact hunmarked hquiet

/-- A wait that succeeds leaves no node pending. -/
theorem decides_marking (settings : Settings) (name : String) :
    Wait.Decides sensibly (fun _ => True) settings name spec
      (fun s => Marking spec may done (· = name) s.2)
      (fun reached s => reached = true → Marking spec may done (fun _ => False) s.2) where
  stable := stable_marking
  lasts reached := {
    others := fun ho h hreached => stable_marking.others ho (h hreached)
    calls := fun hc hs h hreached => stable_marking.calls hc hs (h hreached) }
  calls _ _ _ := trivial
  read := by
    rintro s start deadline ended node t ⟨-, hlog⟩ hneeds hs -
    rw [hlog]
    exact hs.shown rfl (by simp [Event.shows, Wait.reached, hneeds])
  late _ _ := nofun
  asleep _ _ := nofun
  unscheduled _ _ := nofun

theorem decides_quiet (settings : Settings) (name : String) :
    Wait.Decides sensibly (fun _ => True) settings name spec
      (fun s => Marking spec may done awaited s.2) (fun _ _ => True) :=
  .of_stable stable_marking fun _ _ _ => trivial

/-- A batch marks at most `room` of the listed workers, in their order. -/
theorem assures_selectBatch_marking (settings : Settings) (room : Nat) (nodes : List Node)
    (hmay : ∀ node ∈ nodes, may node.name) (h : Marking spec may done (fun _ => False) s.2) :
    Assures sensibly (fun _ => True) (selectBatch settings spec room nodes).run
      (fun s _ => Marking spec may (done ++ (nodes.map Node.name).take room) (fun _ => True) s.2)
      s := by
  -- induction over the workers: after each wait that succeeds no node is pending again
  induction nodes generalizing room done s with
  | nil => cases room <;> exact Assures.done fun t ht => stable_marking.others ht (h.before _)
  | cons listed rest ih =>
    cases room with
    | zero => exact Assures.done fun t ht => stable_marking.others ht (h.before _)
    | succ room =>
      obtain ⟨hfirst, hrest⟩ := List.forall_mem_cons.mp hmay
      rw [List.map_cons, List.take_succ_cons, selectBatch]
      have hchosen : ∀ {awaited : String → Prop} {t : Unit × List (Event Cluster)},
          Marking spec may (done ++ [listed.name]) awaited t.2 →
          Marking spec may (done ++ listed.name :: (rest.map Node.name).take room)
            (fun _ => True) t.2 := by
        intro awaited t ht
        refine ht.mono (fun _ => id) ?_ (fun _ _ => trivial)
        exact (List.singleton_sublist.mpr List.mem_cons_self).append_left done
      refine Assures.attempt (Assures.ask fun t ht answer u hu => ⟨trivial, ?_⟩)
      have hu' : Marking spec may done (fun _ => False) u.2 :=
        stable_marking.calls rfl hu (stable_marking.others ht h)
      refine Assures.done fun v hv => ?_
      have hv' := stable_marking.others hv hu'
      cases answer with
      | error failure => exact fun w hw => stable_marking.others hw (hv'.before _)
      | ok node =>
        have hname : node.name = listed.name := hu.1
        rw [← hname] at hfirst hchosen ⊢
        dsimp only
        split
        · exact Assures.done fun w hw => stable_marking.others hw (hv'.before _)
        · refine Assures.attempt ((assures_select_marking hfirst hv').mono fun w r hw => ?_)
          cases r with
          | error failure => exact fun x hx => hchosen (stable_marking.others hx hw)
          | ok =>
            have hawait := assures_await (decides_marking settings node.name) hw
            refine Assures.lift (hawait.mono fun x reached hx => ?_)
            cases reached with
            | false => exact Assures.done fun y hy => hchosen (stable_marking.others hy hx.1)
            | true =>
              have hbatch := ih room hrest (hx.2 rfl)
              rw [List.append_assoc, List.singleton_append] at hbatch
              refine Assures.attempt (hbatch.mono fun y r hy => ?_)
              cases r with
              | ok => exact Assures.done fun z hz => stable_marking.others hz hy
              | error failure => exact fun z hz => stable_marking.others hz hy

/-- The limit of one batch. -/
def batchRoom (settings : Settings) (spec : Spec) (workers : List Node) : Nat :=
  min (spec.workerLimit settings.defaultMaxUnavailable) (workers.filter (·.isCandidate spec)).length

theorem assures_workerTier_marking (settings : Settings) (workers : List Node)
    (h : Untouched spec s.2) :
    Assures sensibly (fun _ => True) (workerTier settings spec workers).run
      (fun s _ => Marking spec (· ∈ workers.map Node.name)
        (((workers.filter (·.isCandidate spec)).map Node.name).take
          (batchRoom settings spec workers)) (fun _ => True) s.2) s := by
  have hstart : Marking spec (· ∈ workers.map Node.name) [] (fun _ => False) s.2 :=
    h.mono (fun _ => False.elim) (List.Sublist.refl _) (fun _ => id)
  have hawait := assures_awaitAll (D := fun _ _ _ => True)
    (fun node => decides_quiet settings node.name) (workers.filter (·.isUnderWay spec)) hstart
  refine Assures.lift (hawait.mono fun t stuck ht => ?_)
  cases stuck with
  | some node => exact Assures.done fun u hu => stable_marking.others hu (ht.1.before _)
  | none =>
    have hmay : ∀ node ∈ workers.filter (·.isCandidate spec), node.name ∈ workers.map Node.name :=
      fun node hnode => List.mem_map_of_mem (List.mem_filter.mp hnode).1
    have hbatch :=
      assures_selectBatch_marking settings (batchRoom settings spec workers) _ hmay ht.1
    refine Assures.attempt (hbatch.mono fun u r hu => ?_)
    cases r with
    | error failure => exact fun v hv => stable_marking.others hv hu
    | ok batch =>
      obtain ⟨selected, stuck⟩ := batch
      cases stuck with
      | some name => exact Assures.done fun v hv => stable_marking.others hv hu
      | none =>
        dsimp only
        split <;> exact Assures.done fun v hv => stable_marking.others hv hu

/-- The control-plane tier writes nothing, or it writes to one node and the pass ends. -/
theorem assures_controlPlaneTier_marking (settings : Settings) (nodes : List Node)
    (h : Untouched spec s.2) :
    Assures sensibly (fun _ => True) (controlPlaneTier settings spec nodes).run
      (fun s r => Untouched spec s.2 ∨ r ≠ .ok none ∧ ∃ node ∈ nodes,
        Marking spec (· = node.name) [node.name] (fun _ => True) s.2) s := by
  unfold controlPlaneTier
  split
  next node hfind =>
    have hlast := assures_awaitLast_of_decides [] (decides_quiet settings node.name) h
    refine Assures.lift (hlast.mono fun t outcome ht => ?_)
    exact Assures.done fun u hu => .inl (stable_marking.others hu ht)
  next =>
    split
    next node hfind =>
      have hnode : node ∈ nodes := List.mem_of_find?_eq_some hfind
      have hstart : Marking spec (· = node.name) [] (fun _ => False) s.2 :=
        h.mono (fun _ => False.elim) (List.Sublist.refl _) (fun _ => id)
      have hend : ∀ {awaited} {t : Unit × List (Event Cluster)},
          Marking spec (· = node.name) [node.name] awaited t.2 → ∃ node ∈ nodes,
            Marking spec (· = node.name) [node.name] (fun _ => True) t.2 := fun ht =>
        ⟨node, hnode, ht.mono (fun _ => id) (List.Sublist.refl _) (fun _ _ => trivial)⟩
      refine Assures.attempt ((assures_select_marking (by rfl) hstart).mono fun t r ht => ?_)
      cases r with
      | error failure =>
        exact fun u hu => .inr ⟨by simp, hend (stable_marking.others hu ht)⟩
      | ok =>
        have hlast := assures_awaitLast_of_decides [node.name] (decides_quiet settings node.name) ht
        refine Assures.lift (hlast.mono fun u outcome hu => ?_)
        exact Assures.done fun v hv => .inr ⟨by simp, hend (stable_marking.others hv hu)⟩
    next => exact Assures.done fun t ht => .inl (stable_marking.others ht h)

/-- The nodes that a pass began with; it begins with the list. -/
def listed : List (Event Cluster) → List Node
  | ⟨.list, .ok nodes⟩ :: _ => nodes
  | _ => []

/-- The listed workers that are behind the target and lack its marker. -/
def waiting (spec : Spec) (log : List (Event Cluster)) : List Node :=
  (listed log).filter fun node => !node.isControlPlane && node.isCandidate spec

/-- What bounds the writes of one pass. -/
structure Throttled (settings : Settings) (spec : Spec) (log : List (Event Cluster)) : Prop where
  /-- Each write sets the marker, and none is planned on a record that carries it. -/
  planned : ∀ seen changes answer, ⟨.patch seen changes, answer⟩ ∈ log →
    seen.isSelectedFor spec = false ∧ changes = selectPlan spec seen
  /-- A write to a control-plane node leaves no room for one to another node. -/
  controlPlane : ∀ node ∈ listed log, node.isControlPlane = true → node.name ∈ attempts log →
    ∀ name ∈ attempts log, name = node.name
  workers : (∀ node ∈ listed log, node.isControlPlane = true → node.name ∉ attempts log) →
    (selections log).Sublist ((waiting spec log).map Node.name)
  limit : (∀ node ∈ listed log, node.isControlPlane = true → node.name ∉ attempts log) →
    (selections log).length ≤ (waiting spec log).length ∧
    (0 < spec.maxUnavailable.toInt → (selections log).length ≤ spec.maxUnavailable.toInt) ∧
    (spec.maxUnavailable.toInt ≤ 0 → (selections log).length ≤ settings.defaultMaxUnavailable)
  once : (selections log).Nodup
  /-- Between two marks the first of the two nodes is read at the target. -/
  spaced : ∀ before x between y after name, log = before ++ x :: between ++ y :: after →
    x.marked? = some name → y.marked?.isSome → ∃ e ∈ between, e.shows spec name = true

theorem selections_subset (log : List (Event Cluster)) : selections log ⊆ attempts log := by
  intro name hname
  obtain ⟨⟨c, answer⟩, he, hmarked⟩ := List.mem_filterMap.mp hname
  refine List.mem_filterMap.mpr ⟨_, he, ?_⟩
  cases c with
  | patch seen changes =>
    cases answer with
    | ok => exact hmarked
    | error failure => cases hmarked
  | _ => cases hmarked

namespace Throttled

variable {settings : Settings}

/-- Without a mark on a worker there is nothing to bound but what a control-plane node gets. -/
theorem of_marking (h : Marking spec may done awaited log) (honce : done.Nodup)
    (hcp : ∀ node ∈ listed log, node.isControlPlane = true → node.name ∈ attempts log →
      ∀ name ∈ attempts log, name = node.name)
    (hnone : (∀ node ∈ listed log, node.isControlPlane = true → node.name ∉ attempts log) →
      selections log = []) : Throttled settings spec log where
  planned seen changes answer hmem := ⟨(h.planned _ hmem).1, (h.planned _ hmem).2.1⟩
  controlPlane := hcp
  workers hworkers := by simp [hnone hworkers]
  limit hworkers := by
    rw [hnone hworkers, List.length_nil]
    exact ⟨Nat.zero_le _, fun hpos => Int.le_of_lt hpos, fun _ => Nat.zero_le _⟩
  once := honce.sublist h.marks
  spaced before x between y after name hlog hx hy := h.spaced.exists_shows hlog hx hy

theorem of_untouched (h : Untouched spec log) : Throttled settings spec log := by
  refine of_marking h List.nodup_nil ?_ fun _ => List.sublist_nil.mp h.marks
  intro node _ _ htried
  exact absurd (h.tried _ htried) id

theorem of_controlPlane {node : Node} (hnode : node ∈ listed log)
    (hrole : node.isControlPlane = true)
    (h : Marking spec (· = node.name) [node.name] awaited log) : Throttled settings spec log := by
  refine of_marking h (List.pairwise_singleton _ _) ?_ ?_
  · intro other _ _ htried name hname
    exact (h.tried name hname).trans (h.tried other.name htried).symm
  · intro hworkers
    -- every write went to `node`, so there was none
    refine List.eq_nil_iff_forall_not_mem.mpr fun name hname => ?_
    have htried : name ∈ attempts log := selections_subset log hname
    exact hworkers node hnode hrole (h.tried name htried ▸ htried)

theorem of_workers (hnames : ((listed log).map Node.name).Nodup)
    (h : Marking spec (· ∈ ((listed log).filter (!·.isControlPlane)).map Node.name)
      (((((listed log).filter (!·.isControlPlane)).filter (·.isCandidate spec)).map Node.name).take
        (batchRoom settings spec ((listed log).filter (!·.isControlPlane)))) awaited log) :
    Throttled settings spec log := by
  have hwaiting : ((listed log).filter (!·.isControlPlane)).filter (·.isCandidate spec) =
      waiting spec log := by
    rw [List.filter_filter, waiting]
    exact List.filter_congr fun node _ => Bool.and_comm ..
  have hlength := h.marks.length_le
  rw [List.length_take, List.length_map, batchRoom, hwaiting, Nat.min_assoc,
    Nat.min_self] at hlength
  have hmarks : (selections log).Sublist ((waiting spec log).map Node.name) :=
    hwaiting ▸ h.marks.trans (List.take_sublist _ _)
  exact {
    planned := fun seen changes answer hmem => ⟨(h.planned _ hmem).1, (h.planned _ hmem).2.1⟩
    controlPlane := by
      intro node hnode hrole htried
      -- names are distinct, so no worker has the name of a control-plane node
      obtain ⟨worker, hworker, hname⟩ := List.mem_map.mp (h.tried _ htried)
      obtain ⟨hlisted, hrole'⟩ := List.mem_filter.mp hworker
      obtain rfl : worker = node := List.inj_on_of_nodup_map hnames hlisted hnode hname
      simp [hrole] at hrole'
    workers := fun _ => hmarks
    limit := by
      intro _
      have hwait : (selections log).length ≤ (waiting spec log).length := by omega
      have hlimit : (selections log).length ≤ spec.workerLimit settings.defaultMaxUnavailable := by
        omega
      unfold Spec.workerLimit at hlimit
      split at hlimit
      · exact ⟨hwait, fun _ => by omega, fun _ => by omega⟩
      · exact ⟨hwait, fun _ => by omega, fun _ => hlimit⟩
    once := by
      have hsub : ((waiting spec log).map Node.name).Sublist ((listed log).map Node.name) :=
        List.filter_sublist.map Node.name
      exact hnames.sublist (hmarks.trans hsub)
    spaced := fun before x between y after name hlog hx hy => h.spaced.exists_shows hlog hx hy }

end Throttled

/-- What comes after the list, for every list with distinct names. -/
theorem assures_afterList_throttled (settings : Settings) {nodes : List Node}
    (hnames : (nodes.map Node.name).Nodup) (h : Untouched spec s.2) :
    Assures sensibly (fun _ => True) (afterList settings spec nodes).run
      (fun s _ => listed s.2 = nodes → Throttled settings spec s.2) s := by
  unfold afterList
  split
  · exact Assures.done fun t ht _ => .of_untouched (stable_marking.others ht h)
  · refine Assures.attempt ((assures_controlPlaneTier_marking settings _ h).mono fun t r ht => ?_)
    -- the tier that wrote ends the pass; otherwise all writes are those of the worker tier
    have htier : r ≠ .ok none → ∀ {u}, (sensibly).Others t u → listed u.2 = nodes →
        Throttled settings spec u.2 := by
      intro hr u hu hlisted
      rcases ht with ht | ⟨-, node, hnode, ht⟩
      · exact .of_untouched (stable_marking.others hu ht)
      · obtain ⟨hmem, hrole⟩ := List.mem_filter.mp hnode
        exact .of_controlPlane (hlisted ▸ hmem) hrole (stable_marking.others hu ht)
    match r with
    | .error failure => exact fun u hu => htier (by simp) hu
    | .ok (some outcome) => exact Assures.done fun u hu => htier (by simp) hu
    | .ok none =>
      have hstart : Untouched spec t.2 := ht.resolve_right fun hend => hend.1 rfl
      refine (assures_workerTier_marking settings _ hstart).mono fun u r hu hlisted => ?_
      subst hlisted
      exact .of_workers hnames hu

/-- The writes of a pass are bounded, whatever its calls are answered. -/
theorem run_throttled (settings : Settings) (spec : Spec) {log : List (Event Cluster)}
    {result : Except Failure PassOutcome} (hrun : Runs (run settings spec).run log result)
    (hsensible : ∀ e ∈ log, e.Sensible) : Throttled settings spec log := by
  cases hnoop : spec.isNoop with
  | true =>
    have hdone : (run settings spec).run = .done (.ok .noTarget) := by
      simp only [run, hnoop]
      rfl
    rw [hdone] at hrun
    cases hrun
    exact .of_untouched Marking.nil
  | false =>
    rw [run_eq hnoop] at hrun
    cases hrun with
    | @ask _ _ events _ answer hrest =>
      obtain ⟨hlist, hevents⟩ := List.forall_mem_cons.mp hsensible
      have hstart : Untouched spec [⟨.list, answer⟩] := Marking.nil.quiet rfl
      cases answer with
      | error failure =>
        cases hrest
        exact .of_untouched hstart
      | ok nodes =>
        have hafter : Assures sensibly _ (afterList settings spec nodes).run _
            ((), [⟨.list, .ok nodes⟩]) := assures_afterList_throttled settings hlist hstart
        exact hafter.runs hrest hevents rfl

def secondWorker : Node := { name := "w2", resourceVersion := some "1" }

def upgradedWorker : Node := { Fleet.oldWorker with kubelet := "v1.29.1", kubeProxy := "v1.29.1" }

/-- A batch of two workers, of which the second one misses its deadline. -/
def batchLog : List (Event Cluster) := [
  ⟨.list, .ok [Fleet.oldWorker, secondWorker]⟩,
  ⟨.get "w1", .ok Fleet.oldWorker⟩,
  ⟨.patch Fleet.oldWorker (selectPlan Fleet.sampleSpec Fleet.oldWorker), .ok ()⟩,
  ⟨.count (.selected .worker), ()⟩,
  ⟨.now, 0⟩,
  ⟨.readUntil "w1" 0 60, some (1, .ok upgradedWorker)⟩,
  ⟨.count (.waited .worker 1), ()⟩,
  ⟨.get "w2", .ok secondWorker⟩,
  ⟨.patch secondWorker (selectPlan Fleet.sampleSpec secondWorker), .ok ()⟩,
  ⟨.count (.selected .worker), ()⟩,
  ⟨.now, 1⟩,
  ⟨.readUntil "w2" 1 61, none⟩,
  ⟨.count (.timedOut .worker), ()⟩]

theorem runs_batchLog :
    Runs (run shortWaits Fleet.sampleSpec).run batchLog (.ok (.stalled "w2")) := by
  refine .ask _ (.ask _ (.ask _ (.ask _ (.ask _ ?_))))
  unfold Wait.poll
  refine .ask _ (.ask _ (.ask _ (.ask _ (.ask _ (.ask _ ?_)))))
  unfold Wait.poll
  exact .ask _ (.ask _ (.done _))

theorem run_throttled_batch :
    selections batchLog = ["w1", "w2"] ∧ Throttled shortWaits Fleet.sampleSpec batchLog := by
  have hsensible : ∀ e ∈ batchLog, e.Sensible := by simp [batchLog, Event.Sensible]; decide
  exact ⟨rfl, run_throttled shortWaits Fleet.sampleSpec runs_batchLog hsensible⟩

end Pass

end NodeRollout
