import Mathlib.Logic.Function.Iterate
import Mathlib.Order.WellFounded
import Mathlib.Tactic.Choose
import Mathlib.Tactic.IntervalCases
import NodeRollout.Proofs.WaitClock

/-! The bounded wait as two tasks that run side by side. A checker reads the node at its ticks, and
leaves a signal once the node is at the target. The caller waits for the signal or for the deadline,
whichever comes first, and stops the checker as it returns. Of two things that can be done at one time
either may come first, but no time passes while something can be done. Every run of the tasks keeps
the promise of the bounded wait, and it comes to the same as the wait in one piece. -/
namespace NodeRollout

namespace Wait

/-- What the checker is about: the next tick, or a read with its number and the time it began. -/
inductive Checker where
  | waiting (tick : Nat)
  | reading (index begun : Nat)
  | gone

/-- The two tasks, with the times of the reads so far, and the time and the result of the return. -/
structure Tasks where
  time : Nat
  checker : Checker
  reads : List Nat := []
  signal : Bool := false
  returned : Option (Nat × Except Failure Nat) := none

section Semantics

variable (settings : Settings) (name : String) (spec : Spec) (readings : Readings) (start : Nat)

/-- What one of the tasks can do without any time passing. -/
inductive Act : Tasks → Tasks → Prop where
  | begin {s : Tasks} {tick : Nat} (checker : s.checker = .waiting tick) (due : tick ≤ s.time) :
      Act s { s with checker := .reading s.reads.length s.time, reads := s.reads ++ [s.time] }
  | found {s : Tasks} {index begun : Nat} (checker : s.checker = .reading index begun)
      (ended : begun + readings.takes index ≤ s.time) (hits : readings.Hits spec index) :
      Act s { s with checker := .gone, signal := true }
  | missed {s : Tasks} {index begun : Nat} (checker : s.checker = .reading index begun)
      (ended : begun + readings.takes index ≤ s.time) (misses : ¬ readings.Hits spec index) :
      Act s { s with checker := .waiting (nextTick settings.pollInterval begun s.time) }
  | wake {s : Tasks} (signal : s.signal = true) (pending : s.returned = none) :
      Act s { s with checker := .gone, returned := some (s.time, .ok (s.time - start)) }
  | expire {s : Tasks} (due : start + settings.completionTimeout ≤ s.time)
      (pending : s.returned = none) :
      Act s { s with
        checker := .gone, returned := some (s.time, .error (timeoutFailure settings name)) }

/-- The tasks do what they can, and only then the time goes on. -/
inductive Step : Tasks → Tasks → Prop where
  | act {s t : Tasks} (act : Act settings name spec readings start s t) : Step s t
  | elapse {s : Tasks} (idle : ∀ t, ¬ Act settings name spec readings start s t) :
      Step s { s with time := s.time + 1 }

/-- A run of the tasks from the start of the wait on. It goes on for ever, as time does. -/
structure Schedule (path : Nat → Tasks) : Prop where
  init : path 0 = { time := start, checker := .waiting start }
  step : ∀ n, Step settings name spec readings start (path n) (path (n + 1))

/-- The wait returns this result at this time, and from then on its reads are these. -/
structure Returns (path : Nat → Tasks) (reads : List Nat) (returned : Nat)
    (result : Except Failure Nat) : Prop where
  ever : ∃ n, (path n).time = returned ∧ (path n).returned = some (returned, result)
  once : ∀ n v, (path n).returned = some v → v = (returned, result) ∧ (path n).reads = reads

/-- How far the tasks are: before tick `k`, in read `k`, between the signal of read `k` and the
return, or past the return. -/
inductive Stage : Tasks → Prop where
  | waiting {k time : Nat} (before : time ≤ start + k * settings.pollInterval)
      (limit : time ≤ start + settings.completionTimeout)
      (begun : ∀ i < k, start + i * settings.pollInterval ≤ time)
      (fresh : ∀ i < k, ¬ readings.Hits spec i) :
      Stage { time, checker := .waiting (start + k * settings.pollInterval),
              reads := ticks settings start k }
  | reading {k time : Nat} (begun : start + k * settings.pollInterval ≤ time)
      (before : time ≤ start + readings.ends settings k)
      (limit : time ≤ start + settings.completionTimeout)
      (fresh : ∀ i < k, ¬ readings.Hits spec i) :
      Stage { time, checker := .reading k (start + k * settings.pollInterval),
              reads := ticks settings start (k + 1) }
  | signalled {k : Nat} (limit : readings.ends settings k ≤ settings.completionTimeout)
      (fresh : ∀ i < k, ¬ readings.Hits spec i) (hits : readings.Hits spec k) :
      Stage { time := start + readings.ends settings k, checker := .gone,
              reads := ticks settings start (k + 1), signal := true }
  | finished {time returned : Nat} {reads : List Nat} {signal : Bool} {result : Except Failure Nat}
      (ended : Ended settings name spec readings start reads returned result) :
      Stage { time, checker := .gone, reads, signal, returned := some (returned, result) }

end Semantics

variable {settings : Settings} {name : String} {spec : Spec} {readings : Readings} {start : Nat}
  {s t : Tasks} {path : Nat → Tasks}

section Invariant

theorem Stage.init : Stage settings name spec readings start
    { time := start, checker := .waiting start } := by
  have hstage : Stage settings name spec readings start
      { time := start, checker := .waiting (start + 0 * settings.pollInterval),
        reads := ticks settings start 0 } :=
    .waiting (Nat.le_add_right _ _) (Nat.le_add_right _ _) nofun nofun
  rwa [Nat.zero_mul, Nat.add_zero] at hstage

/-- When a read is over, it is so just now: the time did not go on without it. -/
theorem Stage.read_over (h : Stage settings name spec readings start s) {k begun : Nat}
    (checker : s.checker = .reading k begun) (ended : begun + readings.takes k ≤ s.time) :
    readings.ends settings k ≤ settings.completionTimeout ∧ (∀ i < k, ¬ readings.Hits spec i) ∧
      s = { time := start + readings.ends settings k,
            checker := .reading k (start + k * settings.pollInterval),
            reads := ticks settings start (k + 1) } := by
  cases h with
  | @reading _ time begun before limit fresh =>
    cases checker
    rw [Nat.add_assoc] at ended
    obtain rfl : time = start + readings.ends settings k := Nat.le_antisymm before ended
    exact ⟨Nat.le_of_add_le_add_left limit, fresh, rfl⟩
  | waiting => cases checker
  | signalled => cases checker
  | finished => cases checker

theorem Stage.act (hbrief : ∀ j, readings.takes j < settings.pollInterval)
    (h : Stage settings name spec readings start s)
    (hact : Act settings name spec readings start s t) :
    Stage settings name spec readings start t := by
  cases hact with
  | begin checker due =>
    cases h with
    | @waiting k time before limit begun fresh =>
      cases checker
      obtain rfl : time = start + k * settings.pollInterval := Nat.le_antisymm before due
      -- the read gets the number of those before it, and starts right at its tick
      rw [length_ticks, ← ticks_succ]
      exact .reading Nat.le.refl (Nat.add_le_add_left (tick_le_ends k) start) limit fresh
    | reading => cases checker
    | signalled => cases checker
    | finished => cases checker
  | found checker ended hits =>
    obtain ⟨hlimit, hfresh, rfl⟩ := h.read_over checker ended
    exact .signalled hlimit hfresh hits
  | @missed k _ checker ended misses =>
    obtain ⟨hlimit, hfresh, rfl⟩ := h.read_over checker ended
    cases checker
    rw [nextTick_ends hbrief]
    have hnext : readings.ends settings k < (k + 1) * settings.pollInterval :=
      ends_lt_tick hbrief (Nat.lt_succ_self k)
    apply Stage.waiting (Nat.add_le_add_left hnext.le start) (Nat.add_le_add_left hlimit start)
    · exact fun i hi => Nat.add_le_add_left (ticks_le (tick_le_ends k) i hi) start
    · intro i hi
      rcases Nat.lt_succ_iff_lt_or_eq.mp hi with hlt | rfl
      · exact hfresh i hlt
      · exact misses
  | wake signal pending =>
    -- the signal is answered at the time at which it was left
    cases h with
    | @signalled k limit fresh hits =>
      rw [Nat.add_sub_cancel_left]
      exact .finished (.reached fresh hits limit)
    | waiting => cases signal
    | reading => cases signal
    | finished => cases pending
  | expire due pending =>
    -- the wait never runs past its deadline, so it has come right now
    cases h with
    | @waiting k time before limit begun fresh =>
      obtain rfl : time = start + settings.completionTimeout := Nat.le_antisymm limit due
      have hbegun : ∀ i < k, i * settings.pollInterval ≤ settings.completionTimeout :=
        fun i hi => Nat.le_of_add_le_add_left (begun i hi)
      exact .finished (.idle fresh hbegun (Nat.le_of_add_le_add_left before))
    | @reading k time begun before limit fresh =>
      obtain rfl : time = start + settings.completionTimeout := Nat.le_antisymm limit due
      have htick : k * settings.pollInterval ≤ settings.completionTimeout :=
        Nat.le_of_add_le_add_left begun
      exact .finished (.late hbrief fresh htick (Nat.le_of_add_le_add_left before))
    | @signalled k limit fresh hits =>
      have hends : readings.ends settings k = settings.completionTimeout :=
        Nat.le_antisymm limit (Nat.le_of_add_le_add_left due)
      rw [hends]
      exact .finished (.late hbrief fresh (hends ▸ tick_le_ends k) hends.ge)
    | finished => cases pending

theorem time_lt_deadline (idle : ∀ t, ¬ Act settings name spec readings start s t)
    (pending : s.returned = none) : s.time < start + settings.completionTimeout :=
  Nat.lt_of_not_le fun due => idle _ (.expire due pending)

/-- While time passes, neither the next tick nor the deadline is due, and no read is over. -/
theorem Stage.elapse (h : Stage settings name spec readings start s)
    (idle : ∀ t, ¬ Act settings name spec readings start s t) :
    Stage settings name spec readings start { s with time := s.time + 1 } := by
  have hlimit := time_lt_deadline idle
  cases h with
  | @waiting k time before limit begun fresh =>
    have hbefore : time < start + k * settings.pollInterval :=
      Nat.lt_of_not_le fun due => idle _ (.begin rfl due)
    exact .waiting hbefore (hlimit rfl) (fun i hi => (begun i hi).trans (Nat.le_succ time)) fresh
  | @reading k time begun before limit fresh =>
    have hbefore : time < start + readings.ends settings k := by
      apply Nat.lt_of_not_le
      intro ended
      rw [Readings.ends, ← Nat.add_assoc] at ended
      by_cases hhits : readings.Hits spec k
      · exact idle _ (.found rfl ended hhits)
      · exact idle _ (.missed rfl ended hhits)
    exact .reading (begun.trans (Nat.le_succ time)) hbefore (hlimit rfl) fresh
  | signalled => exact absurd (.wake rfl rfl) (idle _)
  | finished ended => exact .finished ended

theorem Stage.step (hbrief : ∀ j, readings.takes j < settings.pollInterval)
    (h : Stage settings name spec readings start s)
    (hstep : Step settings name spec readings start s t) :
    Stage settings name spec readings start t := by
  cases hstep with
  | act hact => exact h.act hbrief hact
  | elapse idle => exact h.elapse idle

theorem Schedule.stage (hbrief : ∀ j, readings.takes j < settings.pollInterval)
    (h : Schedule settings name spec readings start path) (n : Nat) :
    Stage settings name spec readings start (path n) := by
  induction n with
  | zero => exact h.init ▸ .init
  | succ n ih => exact ih.step hbrief (h.step n)

end Invariant

section Return

/-- After the return nothing but the time changes. -/
theorem Stage.keeps (h : Stage settings name spec readings start s) (hreturned : s.returned ≠ none)
    (hstep : Step settings name spec readings start s t) :
    t.reads = s.reads ∧ t.returned = s.returned := by
  cases h with
  | finished ended =>
    cases hstep with
    | act hact =>
      cases hact with
      | begin checker => cases checker
      | found checker => cases checker
      | missed checker => cases checker
      | wake signal pending => cases pending
      | expire due pending => cases pending
    | elapse => exact ⟨rfl, rfl⟩
  | waiting => exact absurd rfl hreturned
  | reading => exact absurd rfl hreturned
  | signalled => exact absurd rfl hreturned

theorem Schedule.keeps (hbrief : ∀ j, readings.takes j < settings.pollInterval)
    (h : Schedule settings name spec readings start path) {n m : Nat} (hnm : n ≤ m)
    (hreturned : (path n).returned ≠ none) :
    (path m).reads = (path n).reads ∧ (path m).returned = (path n).returned := by
  induction m, hnm using Nat.le_induction with
  | base => exact ⟨rfl, rfl⟩
  | succ m _ ih =>
    have hthen : (path m).returned ≠ none := ih.2 ▸ hreturned
    obtain ⟨hreads, hsame⟩ := (h.stage hbrief m).keeps hthen (h.step m)
    exact ⟨hreads.trans ih.1, hsame.trans ih.2⟩

/-- What is left to be done until the return. At each time the checker can begin a read, and end one,
and then its next tick is still to come. -/
def Tasks.rank (deadline : Nat) (s : Tasks) : Nat :=
  match s.returned, s.checker with
  | some _, _ => 0
  | none, .waiting tick => 4 * (deadline - s.time) + if tick ≤ s.time then 3 else 1
  | none, .reading .. => 4 * (deadline - s.time) + 2
  | none, .gone => 4 * (deadline - s.time) + 1

theorem Tasks.rank_pos {deadline : Nat} (hpending : s.returned = none) : 0 < s.rank deadline := by
  cases hchecker : s.checker <;> simp only [rank, hpending, hchecker]
  case waiting tick => split <;> omega
  case reading => omega
  case gone => omega

theorem Stage.rank_lt (hbrief : ∀ j, readings.takes j < settings.pollInterval)
    (h : Stage settings name spec readings start s) (hpending : s.returned = none)
    (hstep : Step settings name spec readings start s t) :
    t.rank (start + settings.completionTimeout) < s.rank (start + settings.completionTimeout) := by
  cases hstep with
  | act hact =>
    cases hact with
    | begin checker due =>
      simp only [Tasks.rank, hpending, checker, if_pos due]
      omega
    | found checker ended hits =>
      simp only [Tasks.rank, hpending, checker]
      omega
    | @missed k begun checker ended misses =>
      obtain ⟨-, -, rfl⟩ := h.read_over checker ended
      cases checker
      have hnext : readings.ends settings k < (k + 1) * settings.pollInterval :=
        ends_lt_tick hbrief (Nat.lt_succ_self k)
      have htick : ¬ start + (k + 1) * settings.pollInterval ≤ start + readings.ends settings k :=
        Nat.not_le_of_lt (Nat.add_lt_add_left hnext start)
      simp only [Tasks.rank, nextTick_ends hbrief, if_neg htick]
      omega
    | wake signal pending => exact Tasks.rank_pos pending
    | expire due pending => exact Tasks.rank_pos pending
  | elapse idle =>
    have htime : s.time < start + settings.completionTimeout := time_lt_deadline idle hpending
    cases hchecker : s.checker <;> simp only [Tasks.rank, hpending, hchecker]
    case waiting tick => split <;> split <;> omega
    case reading => omega
    case gone => omega

theorem Schedule.exists_returned (hbrief : ∀ j, readings.takes j < settings.pollInterval)
    (h : Schedule settings name spec readings start path) : ∃ n, (path n).returned ≠ none := by
  by_contra hnever
  have hpending : ∀ n, (path n).returned = none := by simpa using hnever
  -- the rank would fall for ever
  obtain ⟨n, hn⟩ := WellFounded.not_rel_apply_succ (r := (· < ·))
    fun n => (path n).rank (start + settings.completionTimeout)
  exact hn ((h.stage hbrief n).rank_lt hbrief (hpending n) (h.step n))

theorem Step.returned_now (hpending : s.returned = none)
    (hstep : Step settings name spec readings start s t) (hreturned : t.returned ≠ none) :
    ∃ result, t.returned = some (t.time, result) := by
  cases hstep with
  | act hact =>
    cases hact with
    | begin => exact absurd hpending hreturned
    | found => exact absurd hpending hreturned
    | missed => exact absurd hpending hreturned
    | wake => exact ⟨_, rfl⟩
    | expire => exact ⟨_, rfl⟩
  | elapse => exact absurd hpending hreturned

theorem Schedule.exists_return (hbrief : ∀ j, readings.takes j < settings.pollInterval)
    (h : Schedule settings name spec readings start path) :
    ∃ n result, (path n).returned = some ((path n).time, result) := by
  classical
  have hany := h.exists_returned hbrief
  obtain ⟨n, hn⟩ : ∃ n, Nat.find hany = n + 1 := by
    apply Nat.exists_eq_succ_of_ne_zero
    intro hzero
    have hinit := Nat.find_spec hany
    rw [hzero, h.init] at hinit
    exact hinit rfl
  have hpending : (path n).returned = none :=
    not_not.mp (Nat.find_min hany (hn ▸ Nat.lt_succ_self n))
  have hreturned : (path (n + 1)).returned ≠ none := hn ▸ Nat.find_spec hany
  exact ⟨n + 1, (h.step n).returned_now hpending hreturned⟩

theorem Stage.ended (h : Stage settings name spec readings start s) {returned : Nat}
    {result : Except Failure Nat} (hreturned : s.returned = some (returned, result)) :
    Ended settings name spec readings start s.reads returned result := by
  cases h with
  | finished ended =>
    cases hreturned
    exact ended
  | waiting => cases hreturned
  | reading => cases hreturned
  | signalled => cases hreturned

theorem Schedule.returns (hbrief : ∀ j, readings.takes j < settings.pollInterval)
    (h : Schedule settings name spec readings start path) :
    ∃ reads returned result, Bounded settings name spec readings start reads returned result ∧
      Returns path reads returned result := by
  obtain ⟨n, result, hreturned⟩ := h.exists_return hbrief
  have hended := (h.stage hbrief n).ended hreturned
  refine ⟨_, _, result, hended.bounded hbrief, ⟨n, rfl, hreturned⟩, ?_⟩
  intro m v hv
  -- of the two states one comes after the other, and says the same
  rcases Nat.le_total n m with hnm | hmn
  · obtain ⟨hreads, hsame⟩ := h.keeps hbrief hnm (hreturned ▸ nofun)
    rw [hsame, hreturned] at hv
    exact ⟨(Option.some.inj hv).symm, hreads⟩
  · obtain ⟨hreads, hsame⟩ := h.keeps hbrief hmn (hv ▸ nofun)
    rw [hreturned, hv] at hsame
    exact ⟨(Option.some.inj hsame).symm, hreads.symm⟩

theorem exists_step (settings : Settings) (name : String) (spec : Spec) (readings : Readings)
    (start : Nat) (s : Tasks) : ∃ t, Step settings name spec readings start s t := by
  by_cases hact : ∃ t, Act settings name spec readings start s t
  · obtain ⟨t, hact⟩ := hact
    exact ⟨t, .act hact⟩
  · exact ⟨_, .elapse fun t h => hact ⟨t, h⟩⟩

theorem exists_schedule (settings : Settings) (name : String) (spec : Spec) (readings : Readings)
    (start : Nat) : ∃ path, Schedule settings name spec readings start path := by
  choose next hnext using exists_step settings name spec readings start
  refine ⟨fun n => next^[n] { time := start, checker := .waiting start }, rfl, fun n => ?_⟩
  rw [Function.iterate_succ_apply']
  exact hnext _

end Return

/-- The bounded wait, for every interval, timeout and spec, and whatever its reads show: it returns,
reads the node afresh at the ticks and at no other time, succeeds with the first read that shows the
target in time, and else fails at the deadline. So does every run of the two tasks, whose checker
starts no read after the return; the two come to the same, unless a read shows the target right at the
deadline. -/
theorem run_bounded (name : String) (spec : Spec) (start : Nat)
    (hbrief : ∀ j, readings.takes j < settings.pollInterval) :
    (∃ t elapsed, Waits settings name spec readings start t elapsed) ∧
    (∀ t elapsed, Waits settings name spec readings start t elapsed →
      ∃ reads, t.reads = reads.map (Prod.mk name) ∧
        Bounded settings name spec readings start reads t.time (verdict settings name elapsed)) ∧
    (∃ path, Schedule settings name spec readings start path) ∧
    ∀ path, Schedule settings name spec readings start path →
      ∃ reads returned result, Bounded settings name spec readings start reads returned result ∧
        Returns path reads returned result ∧
        ((∀ j, readings.Hits spec j → readings.ends settings j ≠ settings.completionTimeout) →
          ∀ t elapsed, Waits settings name spec readings start t elapsed →
            verdict settings name elapsed = result ∧ t.time = returned) := by
  refine ⟨exists_waits settings name spec readings start, fun t elapsed => Waits.bounded hbrief,
    exists_schedule settings name spec readings start, fun path hpath => ?_⟩
  obtain ⟨reads, returned, result, hbounded, hreturns⟩ := hpath.returns hbrief
  refine ⟨reads, returned, result, hbounded, hreturns, fun hedge t elapsed hwaits => ?_⟩
  obtain ⟨_, -, hbounded'⟩ := hwaits.bounded hbrief
  exact hbounded'.unique hbounded hedge

section Sample

def sampleTarget : Spec := { kubeVersion := "v1.29.1" }

/-- The node cannot be read at first, is behind at the second read, and is there from the third on. -/
def thirdRead : Readings where
  takes _ := 1
  shows
    | 0 => .error (.nodeNotFound "w1")
    | 1 => .ok { name := "w1", kubelet := "v1.28.0", kubeProxy := "v1.28.0" }
    | _ => .ok { name := "w1", kubelet := "v1.29.1", kubeProxy := "v1.29.1" }

theorem run_bounded_thirdRead :
    (∃ t, Waits Pass.shortWaits "w1" sampleTarget thirdRead 0 t (some 11) ∧ t.time = 11) ∧
    ∃ path reads, Schedule Pass.shortWaits "w1" sampleTarget thirdRead 0 path ∧
      Returns path reads 11 (.ok 11) := by
  have hbrief : ∀ j, thirdRead.takes j < Pass.shortWaits.pollInterval :=
    fun _ => show 1 < 5 by decide
  have hintime : thirdRead.InTime Pass.shortWaits sampleTarget 2 :=
    ⟨show reached sampleTarget (thirdRead.shows 2) = true by decide, show 2 * 5 + 1 < 60 by decide⟩
  have hfirst : ∀ i < 2, ¬ thirdRead.InTime Pass.shortWaits sampleTarget i := by
    intro i hi h
    have hhits : reached sampleTarget (thirdRead.shows i) = true := h.1
    interval_cases i <;> exact absurd hhits (by decide)
  obtain ⟨⟨t, elapsed, hwaits⟩, hbounded, ⟨path, hpath⟩, htasks⟩ :=
    run_bounded "w1" sampleTarget 0 hbrief
  constructor
  · obtain ⟨_, -, hkept⟩ := hbounded t elapsed hwaits
    obtain ⟨hresult, htime⟩ := hkept.arrives 2 hintime hfirst
    cases elapsed with
    | none => cases hresult
    | some elapsed =>
      cases hresult
      exact ⟨t, hwaits, htime⟩
  · obtain ⟨reads, returned, result, hkept, hreturns, -⟩ := htasks path hpath
    obtain ⟨rfl, rfl⟩ := hkept.arrives 2 hintime hfirst
    exact ⟨path, reads, hpath, hreturns⟩

end Sample

end Wait

end NodeRollout
