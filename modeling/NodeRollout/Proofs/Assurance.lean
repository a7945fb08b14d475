import NodeRollout.Pass
import NodeRollout.Proofs.LabelUpdate

/-! Rules for the procedures of the control loops among others. Each says what its procedure
assures from what others and the single calls keep, so that a whole pass is reasoned about call by
call without opening the waits and the retries again. -/
namespace NodeRollout

def ClusterCall.isWrite : ClusterCall → Bool
  | .patch .. => true
  | _ => false

variable {σ : Type} {E : Setting Cluster σ} {G : Moment Cluster σ → Prop} {s : σ}

/-- Neither others nor calls that write nothing put an end to `K`. -/
structure Stable (E : Setting Cluster σ) (K : σ → Prop) : Prop where
  others : ∀ {s t}, E.Others s t → K s → K t
  calls : ∀ {s c answer t}, c.isWrite = false → E.Serves s c answer t → K s → K t

theorem Stable.and {K L : σ → Prop} (hK : Stable E K) (hL : Stable E L) :
    Stable E (fun s => K s ∧ L s) where
  others ho h := ⟨hK.others ho h.1, hL.others ho h.2⟩
  calls hc hs h := ⟨hK.calls hc hs h.1, hL.calls hc hs h.2⟩

namespace Wait

variable {settings : Settings} {K L : σ → Prop} {D : Bool → σ → Prop} {name : String} {spec : Spec}

/-- What the calls of a wait keep: `K` all along, `D true` from the read on that shows the target,
and `D false` once the deadline has come. -/
structure Decides (E : Setting Cluster σ) (G : Moment Cluster σ → Prop) (settings : Settings)
    (name : String) (spec : Spec) (K : σ → Prop) (D : Bool → σ → Prop) : Prop where
  stable : Stable E K
  lasts : ∀ reached, Stable E (D reached)
  calls : ∀ {s c answer t}, c.isWrite = false → E.Serves s c answer t → K s →
    G ⟨s, ⟨c, answer⟩, t⟩
  read : ∀ {s start deadline ended node t},
    E.Serves s (.readUntil name start deadline) (some (ended, .ok node)) t →
    node.needsUpgrade spec = false → K s → D true t
  late : ∀ {s start deadline t}, E.Serves s (.readUntil name start deadline) none t →
    K s → D false t
  asleep : ∀ {s deadline answer t}, E.Serves s (.sleepUntil deadline) answer t → K s → D false t
  unscheduled : ∀ {s}, settings.pollInterval = 0 → K s → D false s

/-- Of a wait whose end does not matter. -/
theorem Decides.of_stable (hK : Stable E K)
    (hcalls : ∀ {s c answer t}, c.isWrite = false → E.Serves s c answer t → K s →
      G ⟨s, ⟨c, answer⟩, t⟩) :
    Decides E G settings name spec K (fun _ _ => True) where
  stable := hK
  lasts _ := ⟨fun _ _ => trivial, fun _ _ _ => trivial⟩
  calls := hcalls
  read _ _ _ := trivial
  late _ _ := trivial
  asleep _ _ := trivial
  unscheduled _ _ := trivial

theorem Decides.and (w : Decides E G settings name spec K D) (hL : Stable E L) :
    Decides E G settings name spec (fun s => K s ∧ L s) D where
  stable := w.stable.and hL
  lasts := w.lasts
  calls hc hs h := w.calls hc hs h.1
  read hs hneeds h := w.read hs hneeds h.1
  late hs h := w.late hs h.1
  asleep hs h := w.asleep hs h.1
  unscheduled hzero h := w.unscheduled hzero h.1

theorem assures_poll (w : Decides E G settings name spec K D) (interval deadline tick : Nat)
    (hs : K s) :
    Assures E G (poll name spec interval deadline tick) (fun s r => K s ∧ D r.isSome s) s := by
  -- induction over the reads; a read that decides nothing leaves `K` for the next one
  induction tick using Wait.poll.induct interval deadline generalizing s with
  | case1 tick htick ih =>
    rw [poll, dif_pos htick]
    refine Assures.ask fun t ht answer u hu => ?_
    have hKt : K t := w.stable.others ht hs
    have hKu : K u := w.stable.calls rfl hu hKt
    refine ⟨w.calls rfl hu hKt, ?_⟩
    match answer with
    | none =>
      have hDu : D false u := w.late hu hKt
      exact Assures.done fun v hv => ⟨w.stable.others hv hKu, (w.lasts false).others hv hDu⟩
    | some (ended, .error failure) => exact ih ended hKu
    | some (ended, .ok node) =>
      by_cases hneeds : node.needsUpgrade spec = true
      · simpa only [reached, hneeds, Bool.not_true, Bool.false_eq_true, if_false] using ih ended hKu
      · have hmatch : node.needsUpgrade spec = false := by simpa using hneeds
        have hDu : D true u := w.read hu hmatch hKt
        simp only [reached, hmatch, Bool.not_false, if_true]
        exact Assures.done fun v hv => ⟨w.stable.others hv hKu, (w.lasts true).others hv hDu⟩
  | case2 tick htick =>
    rw [poll, dif_neg htick]
    refine Assures.ask fun t ht answer u hu => ?_
    have hKt : K t := w.stable.others ht hs
    have hKu : K u := w.stable.calls rfl hu hKt
    have hDu : D false u := w.asleep hu hKt
    refine ⟨w.calls rfl hu hKt, ?_⟩
    exact Assures.done fun v hv => ⟨w.stable.others hv hKu, (w.lasts false).others hv hDu⟩

theorem assures_run (w : Decides E G settings name spec K D) (hs : K s) :
    Assures E G (run settings name spec) (fun s r => K s ∧ D r.isSome s) s := by
  unfold run
  split
  next hzero =>
    refine Assures.done fun t ht => ?_
    have hKt : K t := w.stable.others ht hs
    exact ⟨hKt, w.unscheduled hzero hKt⟩
  next =>
    refine Assures.call fun t ht started u hu => ?_
    have hKt : K t := w.stable.others ht hs
    have hKu : K u := w.stable.calls rfl hu hKt
    refine ⟨w.calls rfl hu hKt, Assures.bind ?_⟩
    refine (assures_poll w _ _ _ hKu).mono ?_
    intro v ended hv
    refine Assures.done fun x hx => ⟨w.stable.others hx hv.1, ?_⟩
    rw [Option.isSome_map]
    exact (w.lasts _).others hx hv.2

end Wait

namespace LabelUpdate

variable {plan : LabelPlan} {name : String} {P : Node → Prop} {K : Nat → σ → Prop}
  {D : σ → Except Failure Bool → Prop}

/-- The rule for a label update. While `n` attempts are left `K n` holds, and `P` ties the record in
hand to the state. -/
theorem assures_attempt_seen {P : Node → σ → Prop}
    (hP : ∀ {seen s t}, E.Others s t → P seen s → P seen t)
    (hK : ∀ {n s t}, E.Others s t → K n s → K n t)
    (hD : ∀ {s t r}, E.Others s t → D s r → D t r)
    (hspent : ∀ {s}, K 0 s → D s (.error (.conflict name)))
    (hplanned : ∀ {n s seen}, P seen s → K (n + 1) s → (plan seen).isEmpty = true →
      D s (.ok false))
    (hpatch : ∀ {n s seen answer t}, P seen s → K (n + 1) s → (plan seen).isEmpty = false →
      E.Serves s (.patch seen (plan seen)) answer t →
      G ⟨s, ⟨.patch seen (plan seen), answer⟩, t⟩ ∧
        match answer with
        | .ok () => D t (.ok true)
        | .error (.conflict _) => K n t
        | .error failure => D t (.error failure))
    (hget : ∀ {n s answer t}, K n s → E.Serves s (.get name) answer t →
      G ⟨s, ⟨.get name, answer⟩, t⟩ ∧
      match answer with
      | .ok node => P node t ∧ K n t
      | .error failure => D t (.error failure))
    (n : Nat) {node : Node} (hnode : P node s) (hs : K n s) :
    Assures E G (attempt plan name n node).run D s := by
  -- induction over the attempts: a conflict costs one, and the read after it gives a new record
  induction n generalizing node s with
  | zero => exact Assures.done fun t ht => hspent (hK ht hs)
  | succ n ih =>
    rw [attempt_succ]
    split
    next hempty =>
      exact Assures.done fun t ht => hplanned (hP ht hnode) (hK ht hs) hempty
    next hplan =>
      refine Assures.ask fun t ht answer u hu => ?_
      obtain ⟨hG, hrest⟩ := hpatch (hP ht hnode) (hK ht hs) (by simpa using hplan) hu
      refine ⟨hG, ?_⟩
      match answer with
      | .ok () => exact Assures.done fun v hv => hD hv hrest
      | .error (.conflict _) =>
        refine Assures.ask fun v hv answer w hw => ?_
        obtain ⟨hG', hrest'⟩ := hget (hK hv hrest) hw
        refine ⟨hG', ?_⟩
        cases answer with
        | ok current => exact ih hrest'.1 hrest'.2
        | error failure => exact Assures.done fun x hx => hD hx hrest'
      | .error (.kube _) | .error (.nodeNotFound _) | .error (.selectionTimeout ..)
      | .error (.rpcUnavailable ..) | .error (.remote _) | .error (.protocol _)
      | .error (.commandFailed ..) | .error (.io _) =>
        exact Assures.done fun v hv => hD hv hrest

theorem assures_attempt (hK : ∀ {n s t}, E.Others s t → K n s → K n t)
    (hD : ∀ {s t r}, E.Others s t → D s r → D t r)
    (hspent : ∀ {s}, K 0 s → D s (.error (.conflict name)))
    (hplanned : ∀ {n s seen}, P seen → K (n + 1) s → (plan seen).isEmpty = true → D s (.ok false))
    (hpatch : ∀ {n s seen answer t}, P seen → K (n + 1) s → (plan seen).isEmpty = false →
      E.Serves s (.patch seen (plan seen)) answer t →
      G ⟨s, ⟨.patch seen (plan seen), answer⟩, t⟩ ∧
        match answer with
        | .ok () => D t (.ok true)
        | .error (.conflict _) => K n t
        | .error failure => D t (.error failure))
    (hget : ∀ {n s answer t}, K n s → E.Serves s (.get name) answer t →
      G ⟨s, ⟨.get name, answer⟩, t⟩ ∧
      match answer with
      | .ok node => P node ∧ K n t
      | .error failure => D t (.error failure))
    (n : Nat) {node : Node} (hnode : P node) (hs : K n s) :
    Assures E G (attempt plan name n node).run D s :=
  assures_attempt_seen (P := fun seen _ => P seen) (K := K) (D := D) (fun _ hseen => hseen) hK hD
    hspent hplanned hpatch hget n hnode hs

theorem assures_run {node : Node}
    (hpatch : ∀ {s seen answer t}, (plan seen).isEmpty = false →
      E.Serves s (.patch seen (plan seen)) answer t → G ⟨s, ⟨.patch seen (plan seen), answer⟩, t⟩)
    (hget : ∀ {s answer t}, E.Serves s (.get node.name) answer t →
      G ⟨s, ⟨.get node.name, answer⟩, t⟩) :
    Assures E G (run node plan).run (fun _ _ => True) s := by
  refine assures_attempt (P := fun _ => True) (K := fun _ _ => True) ?_ ?_ ?_ ?_ ?_ ?_
    maxAttempts trivial trivial
  · exact fun _ _ => trivial
  · exact fun _ _ => trivial
  · exact fun _ => trivial
  · exact fun _ _ _ => trivial
  · intro n s seen answer t _ _ hplan hserves
    refine ⟨hpatch hplan hserves, ?_⟩
    split <;> trivial
  · intro n s answer t _ hserves
    refine ⟨hget hserves, ?_⟩
    split <;> trivial

end LabelUpdate

namespace Pass

variable {settings : Settings} {K : σ → Prop} {spec : Spec}

/-- A selection leaves what its label update leaves. -/
theorem assures_select_of_update {node : Node} (hK : Stable E K)
    (hcalls : ∀ {s c answer t}, c.isWrite = false → E.Serves s c answer t → K s →
      G ⟨s, ⟨c, answer⟩, t⟩)
    (h : Assures E G (LabelUpdate.run node (selectPlan spec)).run (fun s _ => K s) s) :
    Assures E G (select spec node).run (fun s _ => K s) s := by
  refine Assures.attempt (h.mono fun t r hKt => ?_)
  cases r with
  | error failure => exact fun u hu => hK.others hu hKt
  | ok written =>
    cases written with
    | false => exact Assures.done fun u hu => hK.others hu hKt
    | true =>
      refine Assures.ask fun u hu answer v hv => ?_
      have hKu : K u := hK.others hu hKt
      have hKv : K v := hK.calls rfl hv hKu
      exact ⟨hcalls rfl hv hKu, Assures.done fun w hw => hK.others hw hKv⟩

/-- A wait leaves what the deciding read showed, or what the deadline leaves. -/
theorem assures_await {D : Bool → σ → Prop} {node : Node}
    (w : Wait.Decides E G settings node.name spec K D) (hs : K s) :
    Assures E G (await settings spec node) (fun s reached => K s ∧ D reached s) s := by
  refine Assures.bind ((Wait.assures_run w hs).mono ?_)
  intro t r ht
  -- both ends count one sample, which changes nothing that matters
  have hcount : ∀ sample reached, D reached t →
      Assures E G (Cluster.count sample >>= fun _ => pure reached)
        (fun s reached => K s ∧ D reached s) t := by
    intro sample reached hDt
    refine Assures.ask fun u hu answer v hv => ?_
    have hKu : K u := w.stable.others hu ht.1
    have hKv : K v := w.stable.calls rfl hv hKu
    have hDv : D reached v := (w.lasts reached).calls rfl hv ((w.lasts reached).others hu hDt)
    refine ⟨w.calls rfl hv hKu, ?_⟩
    exact Assures.done fun x hx => ⟨w.stable.others hx hKv, (w.lasts reached).others hx hDv⟩
  cases r with
  | none => exact hcount _ false ht.2
  | some elapsed => exact hcount _ true ht.2

/-- The last wait of a pass keeps what its reads keep, however it ends. -/
theorem assures_awaitLast_of_decides {D : Bool → σ → Prop} {node : Node} (selected : List String)
    (w : Wait.Decides E G settings node.name spec K D) (hs : K s) :
    Assures E G (awaitLast settings spec node selected) (fun s _ => K s) s := by
  refine Assures.bind ((assures_await w hs).mono fun t reached ht => ?_)
  cases reached <;> exact Assures.done fun u hu => w.stable.others hu ht.1

/-- When every wait succeeds, every read left what it showed. -/
theorem assures_awaitAll {D : Node → Bool → σ → Prop}
    (w : ∀ node, Wait.Decides E G settings node.name spec K (D node)) (nodes : List Node)
    (hs : K s) :
    Assures E G (awaitAll settings spec nodes)
      (fun s stuck => K s ∧ match stuck with
        | none => ∀ node ∈ nodes, D node true s
        | some node => D node false s) s := by
  induction nodes generalizing K s with
  | nil => exact Assures.done fun t ht => ⟨(w default).stable.others ht hs, by simp⟩
  | cons node rest ih =>
    refine Assures.bind ((assures_await (w node) hs).mono ?_)
    intro t reached ht
    cases reached with
    | false =>
      refine Assures.done fun u hu => ⟨(w node).stable.others hu ht.1, ?_⟩
      exact ((w node).lasts false).others hu ht.2
    | true =>
      -- what the first read showed is carried through the waits for the others
      have hrest := ih (fun other => (w other).and ((w node).lasts true)) ht
      refine hrest.mono fun u stuck hu => ⟨hu.1.1, ?_⟩
      cases stuck with
      | none => exact List.forall_mem_cons.mpr ⟨hu.1.2, hu.2⟩
      | some stuck => exact hu.2

end Pass

end NodeRollout
