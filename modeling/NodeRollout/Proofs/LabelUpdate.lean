import NodeRollout.LabelUpdate
import NodeRollout.Proofs.History

/-! A label update is an atomic read-modify-write. Each write is planned on the very record whose
version it is conditioned on, so on a store that keeps versions apart the one write that takes
effect finds that record still stored, whatever other writers do between the calls. -/
namespace NodeRollout

namespace History

/-- A store where a write that fails changes nothing, and where no read is answered by a conflict.
-/
def Sincere (h : History) : (c : ClusterCall) → c.Answer → History → Prop
  | .patch .., answer, h' => answer ≠ Except.ok () → h' = h
  | .get _, answer, _ => ∀ name, answer ≠ Except.error (.conflict name)
  | _, _, _ => True

/-- Such a store, shared with writers that may do anything to any node between two calls. -/
def shared : Setting Cluster History where
  Serves h c answer h' := h.Serves c answer h' ∧ h.Sincere c answer h'
  Others := Extends
  idle := Extends.refl
  chain := Extends.trans

end History

namespace Program.Event

def isPatch : Event Cluster → Bool
  | ⟨.patch .., _⟩ => true
  | _ => false

def isRead : Event Cluster → Bool
  | ⟨.get _, _⟩ => true
  | _ => false

def isWritten : Event Cluster → Bool
  | ⟨.patch .., .ok ()⟩ => true
  | _ => false

def isRejected : Event Cluster → Bool
  | ⟨.patch .., .error (.conflict _)⟩ => true
  | _ => false

def isFailedRead : Event Cluster → Bool
  | ⟨.get _, .error _⟩ => true
  | _ => false

def read? : Event Cluster → Option Node
  | ⟨.get _, .ok node⟩ => some node
  | _ => none

end Program.Event

namespace LabelUpdate

/-- The record that was read last, the given one when none was. -/
def lastRead (node : Node) (ms : List (Moment Cluster History)) : Node :=
  ms.foldl (fun seen m => m.event.read?.getD seen) node

/-- The call turns the record that was stored right before it into the one with its plan applied. -/
def Applies (plan : LabelPlan) (name : String) (m : Moment Cluster History) : Prop :=
  ∃ old version, m.before.find? name = some old ∧
    m.after.find? name = some (old.relabel (plan old) version)

/-- What a label update with this many attempts did by its calls, and how that shows in its
result. -/
structure Atomic (plan : LabelPlan) (attempts : Nat) (node : Node)
    (ms : List (Moment Cluster History)) (result : Except Failure Bool) : Prop where
  unchanged : ∀ m ∈ ms, m.event.isWritten = false → m.after = m.before
  applies : ∀ m ∈ ms, m.event.isWritten = true → Applies plan node.name m
  of_true : result = .ok true → ms.countP (·.event.isWritten) = 1
  of_not_true : result ≠ .ok true → ms.countP (·.event.isWritten) = 0
  of_false : result = .ok false → (plan (lastRead node ms)).isEmpty = true
  patches_le : ms.countP (·.event.isPatch) ≤ attempts
  reads_le : ms.countP (·.event.isRead) ≤ attempts
  conflict_iff : (∃ name, result = .error (.conflict name)) ↔
    ms.countP (·.event.isRejected) = attempts ∧ ∀ m ∈ ms, m.event.isFailedRead = false

theorem attempt_succ (plan : LabelPlan) (name : String) (n : Nat) (node : Node) :
    (attempt plan name (n + 1) node).run =
      if (plan node).isEmpty then .done (.ok false)
      else .ask (.patch node (plan node)) fun
        | .ok () => .done (.ok true)
        | .error (.conflict _) => .ask (.get name) fun
          | .ok current => (attempt plan name n current).run
          | .error failure => .done (.error failure)
        | .error failure => .done (.error failure) := by
  rw [attempt]
  dsimp only
  split
  · rfl
  · refine congrArg (Program.ask (I := Cluster) (.patch node (plan node))) ?_
    funext answer
    match answer with
    | .ok () => rfl
    | .error (.conflict _) =>
      refine congrArg (Program.ask (I := Cluster) (.get name)) ?_
      funext answer
      cases answer <;> rfl
    | .error (.kube _) | .error (.nodeNotFound _) | .error (.selectionTimeout ..)
    | .error (.rpcUnavailable ..) | .error (.remote _) | .error (.protocol _)
    | .error (.commandFailed ..) | .error (.io _) => rfl

variable {plan : LabelPlan} {node : Node} {n : Nat} {s s' : History}

theorem applies_of_writes (hnode : node ∈ s.records) (hw : s.Writes node (plan node) s')
    (event : Program.Event Cluster) : Applies plan node.name ⟨s, event, s'⟩ := by
  have hold := hw.find?_seen hnode
  obtain ⟨old, version, hfind, hafter⟩ := hw.find?
  obtain rfl : old = node := Option.some.inj (hfind.symm.trans hold)
  refine ⟨old, version, hold, ?_⟩
  rw [hafter, if_pos rfl]

/-- An update that ends at once. -/
theorem Atomic.nil {result : Except Failure Bool} (hkept : result ≠ .ok true)
    (hempty : result = .ok false → (plan node).isEmpty = true)
    (hspent : (∃ name, result = .error (.conflict name)) ↔ 0 = n) :
    Atomic plan n node [] result where
  unchanged := List.forall_mem_nil _
  applies := List.forall_mem_nil _
  of_true hr := absurd hr hkept
  of_not_true _ := List.countP_nil
  of_false := hempty
  patches_le := Nat.zero_le n
  reads_le := Nat.zero_le n
  conflict_iff := by
    rw [List.countP_nil, hspent]
    exact (and_iff_left (List.forall_mem_nil _)).symm

/-- A rejected attempt and a fresh read come before what the remaining attempts do. -/
theorem Atomic.after_conflict {seen current : Node} {name : String} {changes : LabelChanges}
    {s t : History} {ms : List (Moment Cluster History)} {result : Except Failure Bool}
    (h : Atomic plan n current ms result) (hname : current.name = node.name) :
    Atomic plan (n + 1) node
      (⟨s, ⟨.patch seen changes, .error (.conflict name)⟩, s⟩ ::
        ⟨t, ⟨.get node.name, .ok current⟩, t⟩ :: ms) result where
  unchanged m hm hwritten := by
    rcases List.mem_cons.mp hm with rfl | hm
    · rfl
    rcases List.mem_cons.mp hm with rfl | hm
    · rfl
    exact h.unchanged m hm hwritten
  applies m hm hwritten := by
    rcases List.mem_cons.mp hm with rfl | hm
    · cases hwritten
    rcases List.mem_cons.mp hm with rfl | hm
    · cases hwritten
    exact hname ▸ h.applies m hm hwritten
  of_true hr := by
    rw [List.countP_cons_of_neg Bool.false_ne_true, List.countP_cons_of_neg Bool.false_ne_true]
    exact h.of_true hr
  of_not_true hr := by
    rw [List.countP_cons_of_neg Bool.false_ne_true, List.countP_cons_of_neg Bool.false_ne_true]
    exact h.of_not_true hr
  of_false hr := h.of_false hr
  patches_le := by
    rw [List.countP_cons_of_pos rfl, List.countP_cons_of_neg Bool.false_ne_true]
    exact Nat.succ_le_succ h.patches_le
  reads_le := by
    rw [List.countP_cons_of_neg Bool.false_ne_true, List.countP_cons_of_pos rfl]
    exact Nat.succ_le_succ h.reads_le
  conflict_iff := by
    rw [List.countP_cons_of_pos rfl, List.countP_cons_of_neg Bool.false_ne_true, Nat.succ_inj,
      h.conflict_iff, List.forall_mem_cons, List.forall_mem_cons]
    simp only [Program.Event.isFailedRead, true_and]

theorem atomic_of_course {t : History} {ms : List (Moment Cluster History)}
    {result : Except Failure Bool} (hnode : node ∈ s.records)
    (h : Course History.shared s (attempt plan node.name n node).run ms t (.done result)) :
    Atomic plan n node ms result := by
  -- induction over the attempts: the record in hand was stored once, so the store carries out a
  -- write planned for it only while that record is still there
  induction n generalizing node s ms with
  | zero =>
    obtain ⟨rfl, hr, -⟩ := Course.done_done h
    subst hr
    exact Atomic.nil nofun nofun (iff_of_true ⟨_, rfl⟩ rfl)
  | succ n ih =>
    rw [attempt_succ] at h
    split at h
    next hempty =>
      obtain ⟨rfl, rfl, -⟩ := h.done_done
      have hleft : 0 ≠ n + 1 := (Nat.succ_ne_zero n).symm
      exact Atomic.nil (by simp) (fun _ => hempty) (iff_of_false (by simp) hleft)
    next hplan =>
      obtain ⟨s₁, answer, s₂, rest, hothers, ⟨hserves, hsincere⟩, rfl, hrest⟩ := h.ask_done
      -- others may have changed the node, but its record stays among those that were stored
      have hnode₁ : node ∈ s₁.records := History.Extends.mem hothers hnode
      match answer with
      | .ok () =>
        obtain ⟨rfl, rfl, -⟩ := hrest.done_done
        have hw : s₁.Writes node (plan node) s₂ := hserves.resolve_right fun hno => hno.2 rfl
        exact {
          unchanged := by simp [Program.Event.isWritten]
          applies := by simpa using fun _ => applies_of_writes hnode₁ hw _
          of_true := by simp [Program.Event.isWritten]
          of_not_true := by simp
          of_false := by simp
          patches_le := by simp [Program.Event.isPatch]
          reads_le := by simp [Program.Event.isRead]
          conflict_iff := by simp [Program.Event.isRejected] }
      | .error (.conflict name) =>
        obtain rfl : s₂ = s₁ := hsincere (by simp)
        obtain ⟨s₃, read, s₄, rest', hothers', ⟨hget, hnoconflict⟩, rfl, hrest'⟩ := hrest.ask_done
        obtain rfl : s₄ = s₃ := hget.1
        match read with
        | .ok current =>
          have hfind := hget.2 current rfl
          have hname := History.name_of_find? hfind
          exact (ih (History.mem_records hfind) (hname ▸ hrest')).after_conflict hname
        | .error failure =>
          obtain ⟨rfl, rfl, -⟩ := hrest'.done_done
          have hfailure : ∀ name, failure ≠ .conflict name := by
            intro name hf
            exact hnoconflict name (hf ▸ rfl)
          exact {
            unchanged := by simp
            applies := by simp [Program.Event.isWritten]
            of_true := by simp
            of_not_true := by simp [Program.Event.isWritten]
            of_false := by simp
            patches_le := by simp [Program.Event.isPatch]
            reads_le := by simp [Program.Event.isRead]
            conflict_iff := by simp [Program.Event.isFailedRead, hfailure] }
      | .error (.kube _) | .error (.nodeNotFound _) | .error (.selectionTimeout ..)
      | .error (.rpcUnavailable ..) | .error (.remote _) | .error (.protocol _)
      | .error (.commandFailed ..) | .error (.io _) =>
        obtain rfl : s₂ = s₁ := hsincere (by simp)
        obtain ⟨rfl, rfl, -⟩ := hrest.done_done
        exact {
          unchanged := by simp
          applies := by simp [Program.Event.isWritten]
          of_true := by simp
          of_not_true := by simp [Program.Event.isWritten]
          of_false := by simp
          patches_le := by simp [Program.Event.isPatch]
          reads_le := by simp [Program.Event.isRead]
          conflict_iff := by simp [Program.Event.isRejected] }

/-- A label update that begins with a record the store once held is atomic, with at most five writes
and five reads, whatever others do between its calls. -/
theorem run_atomic (plan : LabelPlan) (node : Node) {s t : History}
    {ms : List (Moment Cluster History)} {result : Except Failure Bool} (hnode : node ∈ s.records)
    (h : Course History.shared s (run node plan).run ms t (.done result)) :
    Atomic plan 5 node ms result :=
  atomic_of_course hnode h

def idleWorker : Node := { name := "w1", resourceVersion := some "1" }

def cordonedWorker : Node := { idleWorker with resourceVersion := some "2", unschedulable := true }

def markedWorker : Node :=
  { cordonedWorker with
    resourceVersion := some "3", labels := .singleton Label.selection "v1.29.1" }

def idleHistory : History := ⟨[.stored idleWorker], by decide, by decide⟩

def cordonedHistory : History := idleHistory.store cordonedWorker (by decide) (by decide)

def markedHistory : History := cordonedHistory.store markedWorker (by decide) (by decide)

def markPlan : LabelPlan := fun node =>
  if node.isSelected then ∅ else .singleton Label.selection (some "v1.29.1")

/-- The first write comes after another writer's, and is tried again on a fresh read. -/
def contendedMoments : List (Moment Cluster History) := [
  ⟨cordonedHistory, ⟨.patch idleWorker (markPlan idleWorker), .error (.conflict "w1")⟩,
    cordonedHistory⟩,
  ⟨cordonedHistory, ⟨.get "w1", .ok cordonedWorker⟩, cordonedHistory⟩,
  ⟨cordonedHistory, ⟨.patch cordonedWorker (markPlan cordonedWorker), .ok ()⟩, markedHistory⟩]

theorem contended_course :
    Course History.shared idleHistory (run idleWorker markPlan).run contendedMoments markedHistory
      (.done (.ok true)) := by
  have hcordoned : idleHistory.Extends cordonedHistory := ⟨[.stored cordonedWorker], rfl⟩
  have hmarks : cordonedHistory.Writes cordonedWorker (markPlan cordonedWorker) markedHistory :=
    ⟨cordonedWorker, some "3", by decide, by decide, .inl rfl⟩
  refine .others hcordoned (.call ⟨.inr ⟨rfl, by simp⟩, fun _ => rfl⟩ ?_)
  refine .call ⟨⟨rfl, ?_⟩, by simp [History.Sincere]⟩ ?_
  · rintro node ⟨⟩
    decide
  · exact .call ⟨.inl hmarks, by simp [History.Sincere]⟩ (.stay _ _)

theorem run_atomic_contended :
    idleWorker ∈ idleHistory.records ∧ Atomic markPlan 5 idleWorker contendedMoments (.ok true) :=
  ⟨by decide, run_atomic markPlan idleWorker (by decide) contended_course⟩

end LabelUpdate

end NodeRollout
