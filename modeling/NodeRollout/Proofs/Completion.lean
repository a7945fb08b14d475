import Mathlib.Data.List.Basic
import NodeRollout.Proofs.Interleaving
import NodeRollout.Proofs.Returning

/-! Passes one after the other, until nothing is left to do. Without interruption they follow a
fixed schedule: the control-plane nodes one in a pass, then the workers in batches up to the limit.
An abandoned pass leaves at most one node under way, which the next one waits for, so abandoning
passes changes neither which nodes are marked nor their order. -/
namespace NodeRollout

open Scene

/-- Passes one after the other, each with its result or abandoned at some call. -/
inductive Passes (order : List String) (spec : Spec) (settings : Settings) :
    Scene → List (Option (Except Failure PassOutcome)) → Scene → Prop where
  | none (s : Scene) : Passes order spec settings s [] s
  | complete {s t u : Scene} {ms : List (Moment Cluster Scene)} {res : Except Failure PassOutcome}
      {rest : List (Option (Except Failure PassOutcome))}
      (course : Course (rolling order settings spec) { s with rejections := 0 }
        (Pass.run settings spec).run ms t (.done res))
      (passes : Passes order spec settings t rest u) :
      Passes order spec settings s (some res :: rest) u
  | abandon {s t u : Scene} {ms : List (Moment Cluster Scene)}
      {left : Program Cluster (Except Failure PassOutcome)}
      {rest : List (Option (Except Failure PassOutcome))}
      (course : Course (rolling order settings spec) { s with rejections := 0 }
        (Pass.run settings spec).run ms t left)
      (passes : Passes order spec settings t rest u) :
      Passes order spec settings s (Option.none :: rest) u

namespace Schedule

variable {limit : Nat} {controlPlane workers : List String}

/-- How many passes mark nodes: one for each control-plane node and for each batch of workers. -/
def rounds (limit : Nat) (controlPlane workers : List String) : Nat :=
  controlPlane.length + (workers.length + limit - 1) / limit

def batch (limit : Nat) (controlPlane workers : List String) (i : Nat) : List String :=
  if i < controlPlane.length then (controlPlane.drop i).take 1
  else (workers.drop ((i - controlPlane.length) * limit)).take limit

def outcome (limit : Nat) (controlPlane workers : List String) (i : Nat) : PassOutcome :=
  if i < rounds limit controlPlane workers then .advanced (batch limit controlPlane workers i)
  else .steady

theorem rounds_cons (limit : Nat) (name : String) (controlPlane workers : List String) :
    rounds limit (name :: controlPlane) workers = rounds limit controlPlane workers + 1 := by
  rw [rounds, rounds, List.length_cons]
  omega

theorem rounds_workers (hpos : 0 < limit) (hworkers : workers ≠ []) :
    rounds limit [] workers = rounds limit [] (workers.drop limit) + 1 := by
  have hlength : 0 < workers.length := List.length_pos_iff.mpr hworkers
  rw [rounds, rounds, List.length_nil, Nat.zero_add, Nat.zero_add, List.length_drop,
    ← Nat.add_div_right _ hpos]
  by_cases hfew : workers.length ≤ limit
  · -- the last batch: both sides count one
    have hone : ∀ n, limit ≤ n → n < 2 * limit → n / limit = 1 := fun n hlow hhigh =>
      Nat.div_eq_of_lt_le (by omega) (by omega)
    rw [hone (workers.length + limit - 1) (by omega) (by omega),
      hone (workers.length - limit + limit - 1 + limit) (by omega) (by omega)]
  · congr 1
    omega

theorem rounds_eq_zero (hpos : 0 < limit) : rounds limit [] [] = 0 := by
  rw [rounds, List.length_nil, Nat.zero_add, Nat.zero_add]
  exact Nat.div_eq_of_lt (by omega)

theorem batch_cons (limit : Nat) (name : String) (controlPlane workers : List String) (i : Nat) :
    batch limit (name :: controlPlane) workers (i + 1) = batch limit controlPlane workers i := by
  simp only [batch, List.length_cons, Nat.add_lt_add_iff_right, List.drop_succ_cons,
    Nat.add_sub_add_right]

theorem batch_workers (limit : Nat) (workers : List String) (i : Nat) :
    batch limit [] workers (i + 1) = batch limit [] (workers.drop limit) i := by
  simp only [batch, List.length_nil, Nat.not_lt_zero, if_false, Nat.sub_zero, List.drop_drop]
  rw [Nat.add_mul, Nat.one_mul, Nat.add_comm]

/-- The schedule of what is left after one pass is the rest of the schedule. -/
theorem outcome_succ {cp cp' ws ws' : List String}
    (hrounds : rounds limit cp ws = rounds limit cp' ws' + 1)
    (hbatch : ∀ i, batch limit cp ws (i + 1) = batch limit cp' ws' i) (i : Nat) :
    outcome limit cp ws (i + 1) = outcome limit cp' ws' i := by
  simp only [outcome, hrounds, hbatch, Nat.add_lt_add_iff_right]

theorem outcome_nil (hpos : 0 < limit) (i : Nat) : outcome limit [] [] i = .steady := by
  simp [outcome, rounds_eq_zero hpos]

theorem batch_nil (limit : Nat) (i : Nat) : batch limit [] [] i = [] := by simp [batch]

theorem eq_nil_of_rounds (hpos : 0 < limit) (hrounds : rounds limit controlPlane workers = 0) :
    controlPlane ++ workers = [] := by
  obtain ⟨hcp, hbatches⟩ := Nat.add_eq_zero_iff.mp hrounds
  have hfew : workers.length + limit - 1 < limit := by
    rcases Nat.div_eq_zero_iff.mp hbatches with hzero | hlt
    · omega
    · exact hlt
  have hworkers : workers.length = 0 := by omega
  rw [List.length_eq_zero_iff.mp hcp, List.length_eq_zero_iff.mp hworkers, List.append_nil]

theorem rounds_le {cp ws : List String} (hcp : cp.length ≤ controlPlane.length)
    (hws : ws.length ≤ workers.length) : rounds limit cp ws ≤ rounds limit controlPlane workers :=
  Nat.add_le_add hcp (Nat.div_le_div_right (by omega))

theorem rounds_pos (hpos : 0 < limit) (hne : controlPlane ++ workers ≠ []) :
    0 < rounds limit controlPlane workers := by
  by_contra hzero
  exact hne (eq_nil_of_rounds hpos (Nat.eq_zero_of_not_pos hzero))

/-- The schedule is a list of advances, one for each round, and then only steady. -/
theorem map_outcome (limit : Nat) (controlPlane workers : List String) (n : Nat) :
    (List.range n).map (fun i => outcome limit controlPlane workers i) =
      ((List.range (min n (rounds limit controlPlane workers))).map
        (batch limit controlPlane workers)).map .advanced ++
      List.replicate (n - rounds limit controlPlane workers) .steady := by
  induction n with
  | zero => simp
  | succ n ih =>
    rw [List.range_succ, List.map_append, ih]
    by_cases hn : n < rounds limit controlPlane workers
    · rw [Nat.min_eq_left (Nat.le_of_lt hn), Nat.min_eq_left hn, Nat.sub_eq_zero_of_le hn,
        Nat.sub_eq_zero_of_le (Nat.le_of_lt hn), List.range_succ]
      simp [outcome, hn]
    · have hle : rounds limit controlPlane workers ≤ n := Nat.le_of_not_lt hn
      rw [Nat.min_eq_right hle, Nat.min_eq_right (Nat.le_succ_of_le hle), Nat.succ_sub hle,
        List.replicate_succ', List.append_assoc]
      simp [outcome, hn]

/-- One pass marks the first batch and leaves the later ones. -/
theorem exists_rest (r : Roster) (hpos : 0 < limit)
    (hcp : ∀ name ∈ controlPlane, r.isControlPlane name = true)
    (hworkers : ∀ name ∈ workers, r.isControlPlane name = false)
    (hne : controlPlane ++ workers ≠ []) {count : Nat}
    (hcount : Pass.room r limit (controlPlane ++ workers) = count) :
    (controlPlane ++ workers).take count = batch limit controlPlane workers 0 ∧
      ∃ cp ws, (controlPlane ++ workers).drop count = cp ++ ws ∧
        (∀ name ∈ cp, r.isControlPlane name = true) ∧
        (∀ name ∈ ws, r.isControlPlane name = false) ∧
        rounds limit controlPlane workers = rounds limit cp ws + 1 ∧
        ∀ i, batch limit controlPlane workers (i + 1) = batch limit cp ws i := by
  cases controlPlane with
  | cons name cp =>
    obtain rfl : count = 1 := by
      rw [← hcount, Pass.room, if_pos]
      simp [hcp name List.mem_cons_self]
    refine ⟨by simp [batch], cp, workers, rfl, ?_, hworkers, rounds_cons ..,
      batch_cons limit name cp workers⟩
    exact fun other hother => hcp other (List.mem_cons_of_mem _ hother)
  | nil =>
    obtain rfl : count = limit := by
      rw [← hcount, Pass.room, if_neg]
      simpa using hworkers
    refine ⟨by simp [batch], [], workers.drop count, rfl, by simp, ?_, rounds_workers hpos hne,
      batch_workers count workers⟩
    exact fun other hother => hworkers other (List.mem_of_mem_drop hother)

end Schedule

section Runs

open Schedule

variable {r : Roster} {spec : Spec} {settings : Settings} {limit : Nat} {s t : Scene}
  {done cp ws : List String}

theorem Scene.At.ready {todo : List String} (hs : s.At r spec done todo) :
    Ready r spec done todo { s with rejections := 0 } :=
  ⟨⟨hs.marked, hs.split, hs.stored, hs.absent⟩, rfl⟩

/-- Passes without interruption, from a state in which none is under way, keep to the schedule. -/
theorem Passes.uninterrupted (hsound : Pass.Sound settings spec limit)
    (hcp : ∀ name ∈ cp, r.isControlPlane name = true)
    (hws : ∀ name ∈ ws, r.isControlPlane name = false) (hs : s.At r spec done (cp ++ ws))
    (hlanded : s.Landed spec) {results : List (Except Failure PassOutcome)}
    (hpasses : Passes r.order spec settings s (results.map some) t) :
    results = (List.range results.length).map (fun i => .ok (outcome limit cp ws i)) ∧
      ∃ todo, t.At r spec (done ++ (List.range results.length).flatMap (batch limit cp ws)) todo ∧
        t.Landed spec ∧ (rounds limit cp ws ≤ results.length → todo = []) := by
  induction results generalizing s done cp ws with
  | nil =>
    cases hpasses
    refine ⟨rfl, cp ++ ws, by simpa using hs, hlanded, ?_⟩
    intro hrounds
    exact eq_nil_of_rounds hsound.room (Nat.le_zero.mp hrounds)
  | cons res results ih =>
    rw [List.map_cons] at hpasses
    cases hpasses with
    | complete course passes =>
      obtain ⟨hlanded', hadvances⟩ := (Pass.assures_run_rolling hsound hs.ready).result course
      rw [List.length_cons, List.range_succ_eq_map, List.map_cons, List.map_map, List.flatMap_cons,
        List.flatMap_map]
      cases hadvances with
      -- nothing was under way, so the pass did not have to wait for an earlier one's node
      | resumes late => exact absurd hlanded late
      | steady finished ready =>
        obtain ⟨rfl, rfl⟩ := List.append_eq_nil_iff.mp finished
        obtain ⟨hresults, todo, hend, hlandedEnd, hover⟩ := ih hcp hws ready.1 hlanded' passes
        have hnext : ∀ i, batch limit [] [] (i + 1) = batch limit [] [] i := by simp [batch_nil]
        have htodo := hover (rounds_eq_zero hsound.room ▸ Nat.zero_le _)
        refine ⟨?_, todo, ?_, hlandedEnd, fun _ => htodo⟩
        · rw [outcome_nil hsound.room]
          refine congrArg (List.cons _) (hresults.trans (List.map_congr_left fun i _ => ?_))
          simp [outcome_nil hsound.room]
        · simpa only [Nat.succ_eq_add_one, hnext, batch_nil limit 0, List.nil_append] using hend
      | marks behind room ready =>
        obtain ⟨hbatch, cp', ws', hdrop, hcp', hws', hrounds, hnext⟩ :=
          exists_rest r hsound.room hcp hws behind room
        rw [hbatch, hdrop] at ready
        -- the schedule of what this pass left is the rest of its own schedule
        obtain ⟨hresults, todo, hend, hlandedEnd, hover⟩ := ih hcp' hws' ready.1 hlanded' passes
        refine ⟨?_, todo, ?_, hlandedEnd, fun hall => hover (by omega)⟩
        · have hfirst : outcome limit cp ws 0 = .advanced (batch limit cp ws 0) := by
            rw [outcome, if_pos (hrounds ▸ Nat.succ_pos _)]
          rw [hfirst, ← hbatch]
          refine congrArg (List.cons _) (hresults.trans (List.map_congr_left fun i _ => ?_))
          exact congrArg Except.ok (outcome_succ hrounds hnext i).symm
        · simpa only [Nat.succ_eq_add_one, hnext, List.append_assoc] using hend

/-- What is still to be marked, by tiers. After an abandoned pass, to wait for the node that it
marked may take a pass of its own, but then that node is out of the schedule. -/
theorem Scene.At.rest (hpos : 0 < limit) {todo : List String} (hs : s.At r spec done todo) :
    ∃ cp ws, todo = cp ++ ws ∧ (∀ name ∈ cp, r.isControlPlane name = true) ∧
      (∀ name ∈ ws, r.isControlPlane name = false) ∧
      rounds limit cp ws ≤ rounds limit (r.controlPlane spec) (r.workers spec) ∧
      (done ≠ [] → (todo = [] ∨ ∃ name, done.getLast? = some name ∧ r.isControlPlane name = true) →
        rounds limit cp ws < rounds limit (r.controlPlane spec) (r.workers spec)) := by
  rcases hs.tiers with ⟨ahead, hcp, rfl⟩ | ⟨behind, hdone, hworkers⟩
  · have hlength : (r.controlPlane spec).length = done.length + ahead.length := by
      rw [hcp, List.length_append]
    refine ⟨ahead, r.workers spec, rfl, ?_, fun _ => Roster.not_controlPlane_of_mem,
      rounds_le (by omega) (Nat.le_refl _), ?_⟩
    · intro name hname
      exact Roster.isControlPlane_of_mem (hcp ▸ List.mem_append_right done hname)
    · intro hne _
      have hdone : 0 < done.length := List.length_pos_iff.mpr hne
      rw [rounds, rounds, hlength]
      omega
  · have hlength : (r.workers spec).length = behind.length + todo.length := by
      rw [hworkers, List.length_append]
    refine ⟨[], todo, rfl, by simp, ?_, rounds_le (Nat.zero_le _) (by omega), ?_⟩
    · intro name hname
      exact Roster.not_controlPlane_of_mem (hworkers ▸ List.mem_append_right behind hname)
    · rintro hne (rfl | ⟨name, hlast, hrole⟩)
      · rw [rounds_eq_zero hpos]
        refine rounds_pos hpos ?_
        rwa [hworkers, List.append_nil, ← hdone]
      · have hbehind : behind = [] := by
          by_contra hsome
          rw [hdone, List.getLast?_append_of_ne_nil _ hsome] at hlast
          have hmem := List.mem_of_getLast? hlast
          have hworker := Roster.not_controlPlane_of_mem (hworkers ▸ List.mem_append_left todo hmem)
          simp [hworker] at hrole
        rw [hbehind, List.append_nil] at hdone
        have hfirst : 0 < (r.controlPlane spec).length := List.length_pos_iff.mpr (hdone ▸ hne)
        rw [hbehind, List.nil_append] at hworkers
        rw [rounds, rounds, hworkers, List.length_nil]
        omega

theorem Scene.Standing.course (hsound : Pass.Sound settings spec limit) (hs : s.Standing r spec)
    {ms : List (Moment Cluster Scene)} {left : Program Cluster (Except Failure PassOutcome)}
    (hcourse : Course (rolling r.order settings spec) { s with rejections := 0 }
      (Pass.run settings spec).run ms t left) : t.Standing r spec := by
  obtain ⟨done, todo, hat⟩ := hs
  have hkept := ((Pass.assures_run_rolling hsound hat.ready).course hcourse).2
  exact hcourse.preserves (fun hd hs => hs.drifts hd) (fun m hm _ => hkept m hm)
    ⟨done, todo, hat.ready.1⟩

theorem Scene.Standing.returns (hsound : Pass.Sound settings spec limit) (hs : s.Standing r spec) :
    Returns (rolling r.order settings spec) (Promise settings spec) (Pass.run settings spec).run
      { s with rejections := 0 } := by
  obtain ⟨done, todo, hat⟩ := hs
  exact Pass.returns_run_rolling hsound hat.ready

/-- As many passes as one likes can be run to their ends. -/
theorem Passes.exists_passes (hsound : Pass.Sound settings spec limit) (hs : s.Standing r spec)
    (n : Nat) : ∃ (results : List (Except Failure PassOutcome)) (t : Scene), results.length = n ∧
      Passes r.order spec settings s (results.map some) t := by
  induction n generalizing s with
  | zero => exact ⟨[], s, rfl, .none s⟩
  | succ n ih =>
    obtain ⟨ms, u, res, hcourse, -⟩ := (hs.returns hsound).permits
    obtain ⟨results, t, hlength, hpasses⟩ := ih (hs.course hsound hcourse)
    exact ⟨res :: results, t, by rw [List.length_cons, hlength], .complete hcourse hpasses⟩

/-- A pass that is not abandoned neither fails nor stalls. -/
theorem Passes.kept (hsound : Pass.Sound settings spec limit)
    {outcomes : List (Option (Except Failure PassOutcome))}
    (hpasses : Passes r.order spec settings s outcomes t) (hs : s.Standing r spec) :
    t.Standing r spec ∧ ∀ res, some res ∈ outcomes →
      res = .ok .steady ∨ ∃ names, res = .ok (.advanced names) := by
  induction hpasses with
  | none s => exact ⟨hs, by simp⟩
  | complete course passes ih =>
    obtain ⟨hend, hresults⟩ := ih (hs.course hsound course)
    refine ⟨hend, ?_⟩
    intro other hother
    rcases List.mem_cons.mp hother with hother | hother
    · obtain rfl := Option.some.inj hother
      obtain ⟨done, todo, hat⟩ := hs
      obtain ⟨-, hadvances⟩ := (Pass.assures_run_rolling hsound hat.ready).result course
      cases hadvances with
      | steady => exact .inl rfl
      | marks => exact .inr ⟨_, rfl⟩
      | resumes => exact .inr ⟨_, rfl⟩
    · exact hresults other hother
  | abandon course passes ih =>
    obtain ⟨hend, hresults⟩ := ih (hs.course hsound course)
    refine ⟨hend, ?_⟩
    intro other hother
    rcases List.mem_cons.mp hother with hother | hother
    · cases hother
    · exact hresults other hother

/-- These results are advances first, at most as many as the bound, and then nothing but steady
ones, which come once every target is marked and there. -/
def WindsUp (r : Roster) (spec : Spec) (bound : Nat) (results : List (Except Failure PassOutcome))
    (t : Scene) : Prop :=
  ∃ (batches : List (List String)) (idle : Nat),
    results =
      batches.map (fun names => .ok (.advanced names)) ++ List.replicate idle (.ok .steady) ∧
    batches.length ≤ bound ∧
    (0 < idle → t.marked = r.targets spec ∧ ∀ name ∈ r.order, t.nodes.AtTarget spec name)

theorem Passes.windsUp_of_landed (hsound : Pass.Sound settings spec limit)
    (hcp : ∀ name ∈ cp, r.isControlPlane name = true)
    (hws : ∀ name ∈ ws, r.isControlPlane name = false) (hs : s.At r spec done (cp ++ ws))
    (hlanded : s.Landed spec) {results : List (Except Failure PassOutcome)}
    (hpasses : Passes r.order spec settings s (results.map some) t) :
    WindsUp r spec (rounds limit cp ws) results t := by
  obtain ⟨hresults, todo, hend, hlandedEnd, hover⟩ :=
    hpasses.uninterrupted hsound hcp hws hs hlanded
  have hsplit := congrArg (List.map (Except.ok (ε := Failure)))
    (map_outcome limit cp ws results.length)
  rw [List.map_map, List.map_append, List.map_map, List.map_replicate] at hsplit
  refine ⟨_, _, hresults.trans hsplit, ?_, ?_⟩
  · rw [List.length_map, List.length_range]
    exact Nat.min_le_right _ _
  · intro hidle
    have hrounds : rounds limit cp ws ≤ results.length := by omega
    rw [hover hrounds] at hend
    exact hend.finished hlandedEnd

/-- However passes were abandoned before, the next ones wind up within the bound of the schedule. -/
theorem Passes.windsUp (hsound : Pass.Sound settings spec limit) (hs : s.Standing r spec)
    {results : List (Except Failure PassOutcome)}
    (hpasses : Passes r.order spec settings s (results.map some) t) :
    WindsUp r spec (rounds limit (r.controlPlane spec) (r.workers spec)) results t := by
  cases results with
  | nil => exact ⟨[], 0, rfl, Nat.zero_le _, fun h => absurd h (Nat.lt_irrefl 0)⟩
  | cons res results =>
    obtain ⟨done, todo, hat⟩ := hs
    rw [List.map_cons] at hpasses
    cases hpasses with
    | complete course passes =>
      obtain ⟨hlanded, hadvances⟩ := (Pass.assures_run_rolling hsound hat.ready).result course
      obtain ⟨cp, ws, rfl, hcp, hws, hbound, hlate⟩ := hat.rest hsound.room
      cases hadvances with
      | steady finished ready =>
        obtain ⟨rfl, rfl⟩ := List.append_eq_nil_iff.mp finished
        obtain ⟨hresults, todo, hend, hlandedEnd, hover⟩ :=
          passes.uninterrupted hsound hcp hws ready.1 hlanded
        obtain rfl := hover (rounds_eq_zero hsound.room ▸ Nat.zero_le _)
        -- nothing was left at the first pass, so the schedule of the later ones is empty
        have hsteady : results = List.replicate results.length (.ok .steady) := by
          rw [List.eq_replicate_iff]
          refine ⟨rfl, fun other hother => ?_⟩
          rw [hresults] at hother
          obtain ⟨i, -, rfl⟩ := List.mem_map.mp hother
          rw [outcome_nil hsound.room]
        refine ⟨[], results.length + 1, ?_, Nat.zero_le _, fun _ => hend.finished hlandedEnd⟩
        exact congrArg (List.cons _) hsteady
      | marks behind room ready =>
        obtain ⟨-, cp', ws', hdrop, hcp', hws', hrounds, -⟩ :=
          exists_rest r hsound.room hcp hws behind room
        rw [hdrop] at ready
        obtain ⟨batches, idle, rfl, hbatches, hover⟩ :=
          passes.windsUp_of_landed hsound hcp' hws' ready.1 hlanded
        exact ⟨_ :: batches, idle, rfl, by rw [List.length_cons]; omega, hover⟩
      | resumes late last ready =>
        obtain ⟨batches, idle, rfl, hbatches, hover⟩ :=
          passes.windsUp_of_landed hsound hcp hws ready.1 hlanded
        -- this pass counts against the bound, but the node it waited for is out of the schedule
        have hne : done ≠ [] := by
          rintro rfl
          refine late fun name hlast => ?_
          rw [hat.ready.1.marked] at hlast
          cases hlast
        have hfewer := hlate hne last
        exact ⟨_ :: batches, idle, rfl, by rw [List.length_cons]; omega, hover⟩

theorem Passes.append {before after : List (Option (Except Failure PassOutcome))}
    (hpasses : Passes r.order spec settings s (before ++ after) t) :
    ∃ u, Passes r.order spec settings s before u ∧ Passes r.order spec settings u after t := by
  induction before generalizing s with
  | nil => exact ⟨s, .none s, hpasses⟩
  | cons first before ih =>
    rw [List.cons_append] at hpasses
    cases hpasses with
    | complete course passes =>
      obtain ⟨u, hbefore, hafter⟩ := ih passes
      exact ⟨u, .complete course hbefore, hafter⟩
    | abandon course passes =>
      obtain ⟨u, hbefore, hafter⟩ := ih passes
      exact ⟨u, .abandon course hbefore, hafter⟩

/-- Passes without interruption, from unmarked nodes. -/
theorem Passes.scheduled (hsound : Pass.Sound settings spec limit)
    (hunmarked : ∀ name node, r.nodes.find? name = some node → node.isSelectedFor spec = false)
    {results : List (Except Failure PassOutcome)}
    (hpasses : Passes r.order spec settings ⟨r.nodes, [], 0⟩ (results.map some) t) :
    results = (List.range results.length).map
      (fun i => .ok (outcome limit (r.controlPlane spec) (r.workers spec) i)) ∧
    t.marked = (List.range results.length).flatMap
      (batch limit (r.controlPlane spec) (r.workers spec)) ∧
    (rounds limit (r.controlPlane spec) (r.workers spec) ≤ results.length →
      t.marked = r.targets spec) := by
  obtain ⟨hschedule, rest, hlast, hlanded, hover⟩ := hpasses.uninterrupted hsound
    (fun _ => Roster.isControlPlane_of_mem) (fun _ => Roster.not_controlPlane_of_mem)
    (at_start hunmarked) nofun
  refine ⟨hschedule, hlast.marked, ?_⟩
  intro hrounds
  rw [hover hrounds] at hlast
  exact (hlast.finished hlanded).1

/-- What a rollout that nothing holds up comes to after some passes. -/
structure Completes (r : Roster) (spec : Spec) (settings : Settings) (limit : Nat)
    (outcomes : List (Option (Except Failure PassOutcome))) (t : Scene) : Prop where
  /-- Without interruption, the passes and the nodes that they mark follow the schedule. -/
  schedule : ∀ results, outcomes = results.map some →
    results = (List.range results.length).map
      (fun i => .ok (outcome limit (r.controlPlane spec) (r.workers spec) i)) ∧
    t.marked = (List.range results.length).flatMap
      (batch limit (r.controlPlane spec) (r.workers spec)) ∧
    (rounds limit (r.controlPlane spec) (r.workers spec) ≤ results.length →
      t.marked = r.targets spec)
  /-- Whatever was abandoned, the targets are marked in their order, each at most once. -/
  order : t.marked <+: r.targets spec
  once : t.marked.Nodup
  results : ∀ res, some res ∈ outcomes → res = .ok .steady ∨ ∃ names, res = .ok (.advanced names)
  /-- The passes after the last abandoned one wind up within the bound of the schedule. -/
  windsUp : ∀ before results, outcomes = before ++ results.map some →
    WindsUp r spec (rounds limit (r.controlPlane spec) (r.workers spec)) results t
  /-- The next pass returns. -/
  returns : Returns (rolling r.order settings spec) (Promise settings spec)
    (Pass.run settings spec).run { t with rejections := 0 }
  /-- As many passes as one likes can follow, each to its end. -/
  goesOn : ∀ n, ∃ (results : List (Except Failure PassOutcome)) (u : Scene), results.length = n ∧
    Passes r.order spec settings t (results.map some) u

/-- A rollout from unmarked nodes. Passes without interruption can follow the schedule for as long as
one likes, and whatever passes there were, and whichever of them were abandoned, it completes. -/
theorem Passes.completes (hsound : Pass.Sound settings spec limit)
    (hunmarked : ∀ name node, r.nodes.find? name = some node → node.isSelectedFor spec = false) :
    (∀ n, ∃ t, Passes r.order spec settings ⟨r.nodes, [], 0⟩ ((List.range n).map fun i =>
      some (.ok (outcome limit (r.controlPlane spec) (r.workers spec) i))) t) ∧
    ∀ outcomes t, Passes r.order spec settings ⟨r.nodes, [], 0⟩ outcomes t →
      Completes r spec settings limit outcomes t := by
  have hstart : Scene.Standing r spec ⟨r.nodes, [], 0⟩ := ⟨_, _, at_start hunmarked⟩
  constructor
  · intro n
    obtain ⟨results, t, hlength, hpasses⟩ := Passes.exists_passes hsound hstart n
    have hresults := congrArg (List.map some) (hpasses.scheduled hsound hunmarked).1
    rw [hlength, List.map_map] at hresults
    exact ⟨t, hresults ▸ hpasses⟩
  · intro outcomes t hpasses
    obtain ⟨hstanding, hresults⟩ := hpasses.kept hsound hstart
    have ⟨done, todo, hend⟩ := hstanding
    have hprefix : t.marked <+: r.targets spec := ⟨todo, by rw [hend.marked, hend.split]⟩
    refine ⟨?_, hprefix, (r.nodup_targets spec).sublist hprefix.sublist, hresults, ?_,
      hstanding.returns hsound, Passes.exists_passes hsound hstanding⟩
    · rintro results rfl
      exact hpasses.scheduled hsound hunmarked
    · -- whatever was abandoned before, it left the rollout on its way
      rintro before results rfl
      obtain ⟨u, hbefore, hafter⟩ := hpasses.append
      exact hafter.windsUp hsound (hbefore.kept hsound hstart).1

end Runs

section Sample

open Fleet

def freshNodes : History :=
  ⟨[.stored oldControlPlane, .stored oldWorker, .stored { name := "w2", resourceVersion := some "1" },
    .stored { name := "w3", resourceVersion := some "1" }], by decide, by decide⟩

def sampleRoster : Roster where
  nodes := freshNodes
  order := ["cp1", "w1", "w2", "w3"]
  nodup := by decide
  complete := by
    intro name
    constructor
    · intro hsome
      obtain ⟨node, hnode⟩ := Option.isSome_iff_exists.mp hsome
      have hnames : ∀ old ∈ freshNodes.records, old.name ∈ ["cp1", "w1", "w2", "w3"] := by decide
      exact History.name_of_find? hnode ▸ hnames node (History.mem_records hnode)
    · have hstored : ∀ name ∈ ["cp1", "w1", "w2", "w3"], (freshNodes.find? name).isSome := by decide
      exact hstored name

/-- A pass that is abandoned when it has marked the control-plane node. -/
theorem course_abandoned : ∃ ms t left, Course (rolling sampleRoster.order {} sampleSpec)
    ⟨freshNodes, [], 0⟩ (Pass.run {} sampleSpec).run ms t left ∧ t.marked = ["cp1"] := by
  have hlist : Answers sampleRoster.order {} sampleSpec ⟨freshNodes, [], 0⟩ .list
      (.ok freshNodes.records) ⟨freshNodes, [], 0⟩ :=
    ⟨rfl, _, rfl, by decide, History.isSnapshot_of_records (by decide) (by decide) fun _ h _ => h⟩
  have hstored : freshNodes.find? oldControlPlane.name = some oldControlPlane := by decide
  obtain ⟨nodes, hwrites⟩ :=
    History.exists_writes (Pass.selectPlan sampleSpec oldControlPlane) hstored
  have hpatch : Answers sampleRoster.order {} sampleSpec ⟨freshNodes, [], 0⟩
      (.patch oldControlPlane (Pass.selectPlan sampleSpec oldControlPlane)) (.ok ())
      ⟨nodes, ["cp1"], 0⟩ := .inl ⟨rfl, hwrites, rfl, rfl⟩
  exact ⟨_, _, _, .call hlist (.call hpatch (.stay _ _)), rfl⟩

/-- One control-plane node and three workers, two in a pass: three passes advance and the next one is
steady. Four passes are enough as well after one that was abandoned. -/
theorem Passes.completes_sample :
    (∃ t, Passes sampleRoster.order sampleSpec {} ⟨freshNodes, [], 0⟩
        [some (.ok (.advanced ["cp1"])), some (.ok (.advanced ["w1", "w2"])),
          some (.ok (.advanced ["w3"])), some (.ok .steady)] t ∧
      t.marked = ["cp1", "w1", "w2", "w3"]) ∧
    ∃ (results : List (Except Failure PassOutcome)) (t : Scene), results.length = 4 ∧
      Passes sampleRoster.order sampleSpec {} ⟨freshNodes, [], 0⟩
        (Option.none :: results.map some) t ∧
      t.marked = ["cp1", "w1", "w2", "w3"] := by
  have hsound : Pass.Sound {} sampleSpec 2 :=
    ⟨by decide, by decide, by decide, by decide, by decide⟩
  have hunmarked : ∀ name node, sampleRoster.nodes.find? name = some node →
      node.isSelectedFor sampleSpec = false := by
    intro name node hnode
    have hmem : ∀ old ∈ freshNodes.records, old.isSelectedFor sampleSpec = false := by decide
    exact hmem node (History.mem_records hnode)
  have htargets : sampleRoster.targets sampleSpec = ["cp1", "w1", "w2", "w3"] := by decide
  obtain ⟨hexists, hall⟩ := completes hsound hunmarked
  constructor
  · obtain ⟨t, hpasses⟩ := hexists 4
    have hmarked := ((hall _ t hpasses).schedule
      ((List.range 4).map fun i => .ok (Schedule.outcome 2 _ _ i)) rfl).2.2 (by decide)
    exact ⟨t, hpasses, hmarked.trans htargets⟩
  · obtain ⟨ms, u, left, hcourse, -⟩ := course_abandoned
    have hfirst : Passes sampleRoster.order sampleSpec {} ⟨freshNodes, [], 0⟩ [Option.none] u :=
      .abandon hcourse (.none u)
    obtain ⟨results, t, hlength, hlater⟩ := (hall _ u hfirst).goesOn 4
    have hpasses : Passes sampleRoster.order sampleSpec {} ⟨freshNodes, [], 0⟩
        (Option.none :: results.map some) t := .abandon hcourse hlater
    obtain ⟨batches, idle, hresults, hbound, hover⟩ :=
      (hall _ t hpasses).windsUp [Option.none] results rfl
    have hrounds : Schedule.rounds 2 (sampleRoster.controlPlane sampleSpec)
        (sampleRoster.workers sampleSpec) = 3 := by decide
    rw [hrounds] at hbound
    rw [hresults, List.length_append, List.length_map, List.length_replicate] at hlength
    exact ⟨results, t, by simp [hresults, hlength], hpasses, (hover (by omega)).1.trans htargets⟩

end Sample

end NodeRollout
