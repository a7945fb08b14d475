import Mathlib.Data.Nat.Find
import Mathlib.Order.Basic
import NodeRollout.Proofs.Transcript

/-! The bounded wait in virtual time. All timers are exact, and only the reads of the node take any
time. They are given by their order, as a tick falls on a later read when an earlier one outlasts the
interval. With reads that end before the next tick, the time and the result of the wait are told by
the readings alone, but for what falls on the deadline itself. -/
namespace NodeRollout

namespace Wait

/-- What the reads of a wait take and show, in the order in which they are started. -/
structure Readings where
  takes : Nat → Nat
  shows : Nat → Except Failure Node

/-- The time, and the reads that were started, with their nodes and times. -/
structure Clock where
  time : Nat
  reads : List (String × Nat) := []

namespace Clock

/-- When a read ends that is to be started at this time, or now if the time has passed. -/
def ends (readings : Readings) (s : Clock) (start : Nat) : Nat :=
  max s.time start + readings.takes s.reads.length

/-- The next read is started, and the time goes on. -/
def read (s : Clock) (name : String) (start time : Nat) : Clock where
  time := time
  reads := s.reads ++ [(name, max s.time start)]

/-- The answers of the clock. A read that ends at its deadline may be answered or given up. -/
def Serves (readings : Readings) (s : Clock) : (c : ClusterCall) → c.Answer → Clock → Prop
  | .now, time, t => time = s.time ∧ t = s
  | .readUntil name start deadline, some (ended, answer), t =>
    ended = s.ends readings start ∧ ended ≤ deadline ∧
      answer = readings.shows s.reads.length ∧ t = s.read name start ended
  | .readUntil name start deadline, none, t =>
    deadline ≤ s.ends readings start ∧ t = s.read name start (max s.time deadline)
  | .sleepUntil time, (), t => t = { s with time := max s.time time }
  | _, _, t => t = s

theorem exists_serves (readings : Readings) (s : Clock) (c : ClusterCall) :
    ∃ answer t, s.Serves readings c answer t := by
  match c with
  | .now => exact ⟨s.time, s, rfl, rfl⟩
  | .readUntil name start deadline =>
    rcases Nat.le_total (s.ends readings start) deadline with hle | hle
    · exact ⟨some (_, _), _, rfl, hle, rfl, rfl⟩
    · exact ⟨none, _, hle, rfl⟩
  | .sleepUntil time => exact ⟨(), _, rfl⟩
  | .list => exact ⟨.ok [], s, rfl⟩
  | .get name => exact ⟨.error (.nodeNotFound name), s, rfl⟩
  | .patch node changes => exact ⟨.ok (), s, rfl⟩
  | .upgrades => exact ⟨.ok [], s, rfl⟩
  | .push request => exact ⟨.ok (), s, rfl⟩
  | .count sample => exact ⟨(), s, rfl⟩

end Clock

/-- A clock with exact timers. Between two calls no time passes. -/
def clock (readings : Readings) : Setting Cluster Clock where
  Serves s c answer t := s.Serves readings c answer t
  Others := Eq
  idle := Eq.refl
  chain := Eq.trans

/-- The wait that began at `start` came to this. -/
def Waits (settings : Settings) (name : String) (spec : Spec) (readings : Readings) (start : Nat)
    (t : Clock) (elapsed : Option Nat) : Prop :=
  ∃ ms, Course (clock readings) { time := start } (run settings name spec) ms t (.done elapsed)

/-- What the caller of a wait is told. -/
def verdict (settings : Settings) (name : String) : Option Nat → Except Failure Nat
  | some elapsed => .ok elapsed
  | none => .error (timeoutFailure settings name)

section Specification

variable (settings : Settings) (name : String) (spec : Spec) (readings : Readings) (start : Nat)

/-- The first `n` ticks of a wait. -/
def ticks (n : Nat) : List Nat := (List.range n).map fun j => start + j * settings.pollInterval

/-- When read `j` ends, from the start of the wait on. -/
def Readings.ends (j : Nat) : Nat := j * settings.pollInterval + readings.takes j

/-- Read `j` shows the node at the target. -/
def Readings.Hits (j : Nat) : Prop := reached spec (readings.shows j) = true

/-- Read `j` shows the node at the target, and ends before the deadline. -/
def Readings.InTime (j : Nat) : Prop :=
  readings.Hits spec j ∧ readings.ends settings j < settings.completionTimeout

/-- What is promised of a wait that began at `start`, made these reads, and returned this result at
this time. -/
structure Bounded (reads : List Nat) (returned : Nat) (result : Except Failure Nat) : Prop where
  /-- The reads are started at the ticks, one at each. -/
  reads_eq : reads = ticks settings start reads.length
  /-- No tick before the return is left out. -/
  begun : ∀ j, start + j * settings.pollInterval < returned → j < reads.length
  /-- No read is started after the return. -/
  last : ∀ time ∈ reads, time ≤ returned
  /-- The first read that shows the target in time ends the wait. -/
  arrives : ∀ j, readings.InTime settings spec j → (∀ i < j, ¬ readings.InTime settings spec i) →
    result = .ok (readings.ends settings j) ∧ returned = start + readings.ends settings j
  /-- Without a read that shows the target up to the deadline, the wait fails right then. -/
  expires : (∀ j, readings.Hits spec j → settings.completionTimeout < readings.ends settings j) →
    result = .error (timeoutFailure settings name) ∧ returned = start + settings.completionTimeout
  /-- A success rests on a read that was over by the deadline. -/
  sound : ∀ elapsed, result = .ok elapsed → returned = start + elapsed ∧
    elapsed ≤ settings.completionTimeout ∧ ∃ j, readings.Hits spec j ∧ readings.ends settings j = elapsed
  /-- No failure comes before the deadline, and it is always the same one. -/
  punctual : ∀ failure, result = .error failure →
    failure = timeoutFailure settings name ∧ returned = start + settings.completionTimeout

/-- How a wait ends: with the first read that shows the target, or at the deadline, before which no
such read was over and after which no tick comes. -/
inductive Ended : List Nat → Nat → Except Failure Nat → Prop where
  | reached {j : Nat} (first : ∀ i < j, ¬ readings.Hits spec i) (hits : readings.Hits spec j)
      (intime : readings.ends settings j ≤ settings.completionTimeout) :
      Ended (ticks settings start (j + 1)) (start + readings.ends settings j)
        (.ok (readings.ends settings j))
  | expired {n : Nat} (begun : ∀ i < n, i * settings.pollInterval ≤ settings.completionTimeout)
      (past : settings.completionTimeout ≤ n * settings.pollInterval)
      (missed : ∀ i < n, readings.Hits spec i →
        settings.completionTimeout ≤ readings.ends settings i) :
      Ended (ticks settings start n) (start + settings.completionTimeout)
        (.error (timeoutFailure settings name))

end Specification

variable {settings : Settings} {name : String} {spec : Spec} {readings : Readings}
  {start returned returned' : Nat} {reads reads' : List Nat} {result result' : Except Failure Nat}

section Ticks

@[simp] theorem length_ticks (n : Nat) : (ticks settings start n).length = n := by simp [ticks]

theorem ticks_succ (n : Nat) :
    ticks settings start (n + 1) = ticks settings start n ++ [start + n * settings.pollInterval] := by
  rw [ticks, List.range_succ, List.map_append]
  rfl

theorem mem_ticks {n time : Nat} :
    time ∈ ticks settings start n ↔ ∃ j < n, start + j * settings.pollInterval = time := by
  simp [ticks]

theorem tick_le_ends (j : Nat) : j * settings.pollInterval ≤ readings.ends settings j :=
  Nat.le_add_right _ _

/-- A read ends before the next tick, and so before all that follow. -/
theorem ends_lt_tick (hbrief : ∀ j, readings.takes j < settings.pollInterval) {i j : Nat}
    (hij : i < j) : readings.ends settings i < j * settings.pollInterval :=
  calc readings.ends settings i
      < i * settings.pollInterval + settings.pollInterval := Nat.add_lt_add_left (hbrief i) _
    _ = (i + 1) * settings.pollInterval := (Nat.succ_mul _ _).symm
    _ ≤ j * settings.pollInterval := Nat.mul_le_mul_right _ hij

theorem ends_strictMono (hbrief : ∀ j, readings.takes j < settings.pollInterval) {i j : Nat}
    (hij : i < j) : readings.ends settings i < readings.ends settings j :=
  Nat.lt_of_lt_of_le (ends_lt_tick hbrief hij) (tick_le_ends j)

/-- With a tick, all those before it have come. -/
theorem ticks_le {k limit : Nat} (hk : k * settings.pollInterval ≤ limit) :
    ∀ i < k + 1, i * settings.pollInterval ≤ limit :=
  fun _ hi => (Nat.mul_le_mul_right _ (Nat.le_of_lt_succ hi)).trans hk

end Ticks

section Promise

/-- The deadline came while the last read was under way, or just as it was over. -/
theorem Ended.late (hbrief : ∀ j, readings.takes j < settings.pollInterval) {k : Nat}
    (hfresh : ∀ i < k, ¬ readings.Hits spec i)
    (htick : k * settings.pollInterval ≤ settings.completionTimeout)
    (hlate : settings.completionTimeout ≤ readings.ends settings k) :
    Ended settings name spec readings start (ticks settings start (k + 1))
      (start + settings.completionTimeout) (.error (timeoutFailure settings name)) := by
  apply Ended.expired (ticks_le htick)
  · exact hlate.trans (ends_lt_tick hbrief (Nat.lt_succ_self k)).le
  · intro i hi hits
    rcases Nat.lt_succ_iff_lt_or_eq.mp hi with hlt | rfl
    · exact absurd hits (hfresh i hlt)
    · exact hlate

/-- The deadline came before the next tick, or right with it. -/
theorem Ended.idle {k : Nat} (hfresh : ∀ i < k, ¬ readings.Hits spec i)
    (hbegun : ∀ i < k, i * settings.pollInterval ≤ settings.completionTimeout)
    (hover : settings.completionTimeout ≤ k * settings.pollInterval) :
    Ended settings name spec readings start (ticks settings start k)
      (start + settings.completionTimeout) (.error (timeoutFailure settings name)) :=
  .expired hbegun hover fun i hi hits => absurd hits (hfresh i hi)

/-- Once a wait has ended in one of the two ways, it kept its promise. -/
theorem Ended.bounded (hbrief : ∀ j, readings.takes j < settings.pollInterval)
    (h : Ended settings name spec readings start reads returned result) :
    Bounded settings name spec readings start reads returned result := by
  cases h with
  | @reached j first hits intime =>
    refine ⟨by rw [length_ticks], ?_, ?_, ?_, ?_, ?_, nofun⟩
    · intro i hi
      have htick : readings.ends settings j < (j + 1) * settings.pollInterval :=
        ends_lt_tick hbrief (Nat.lt_succ_self j)
      have hlt : i * settings.pollInterval < (j + 1) * settings.pollInterval := by omega
      rw [length_ticks]
      exact Nat.lt_of_mul_lt_mul_right hlt
    · intro time htime
      obtain ⟨i, hi, rfl⟩ := mem_ticks.mp htime
      have hij : i * settings.pollInterval ≤ j * settings.pollInterval :=
        Nat.mul_le_mul_right _ (Nat.le_of_lt_succ hi)
      exact Nat.add_le_add_left (hij.trans (tick_le_ends j)) start
    · intro i hi hfirst
      -- the first read that shows the target is the first one that does so in time
      rcases Nat.lt_trichotomy i j with hlt | rfl | hgt
      · exact absurd hi.1 (first i hlt)
      · exact ⟨rfl, rfl⟩
      · exact absurd ⟨hits, (ends_strictMono hbrief hgt).trans hi.2⟩ (hfirst j hgt)
    · intro hnone
      exact absurd intime (Nat.not_le_of_gt (hnone j hits))
    · intro elapsed helapsed
      cases helapsed
      exact ⟨rfl, intime, j, hits, rfl⟩
  | @expired n begun past missed =>
    refine ⟨by rw [length_ticks], ?_, ?_, ?_, fun _ => ⟨rfl, rfl⟩, nofun, ?_⟩
    · intro i hi
      have hlt : i * settings.pollInterval < n * settings.pollInterval := by omega
      rw [length_ticks]
      exact Nat.lt_of_mul_lt_mul_right hlt
    · intro time htime
      obtain ⟨i, hi, rfl⟩ := mem_ticks.mp htime
      exact Nat.add_le_add_left (begun i hi) start
    · intro i hi _
      -- its tick comes before the deadline, so the read was made
      have hlt : i * settings.pollInterval < n * settings.pollInterval :=
        calc i * settings.pollInterval
            ≤ readings.ends settings i := tick_le_ends i
          _ < settings.completionTimeout := hi.2
          _ ≤ n * settings.pollInterval := past
      have hmissed := missed i (Nat.lt_of_mul_lt_mul_right hlt) hi.1
      exact absurd hi.2 (Nat.not_lt_of_ge hmissed)
    · intro failure hfailure
      cases hfailure
      exact ⟨rfl, rfl⟩

/-- The readings decide how a wait ends, unless one of them shows the target right at the
deadline. -/
theorem Bounded.unique (h : Bounded settings name spec readings start reads returned result)
    (h' : Bounded settings name spec readings start reads' returned' result')
    (hedge : ∀ j, readings.Hits spec j → readings.ends settings j ≠ settings.completionTimeout) :
    result = result' ∧ returned = returned' := by
  classical
  by_cases hany : ∃ j, readings.InTime settings spec j
  · have hfirst : ∀ i < Nat.find hany, ¬ readings.InTime settings spec i :=
      fun i hi => Nat.find_min hany hi
    obtain ⟨hresult, hreturned⟩ := h.arrives _ (Nat.find_spec hany) hfirst
    obtain ⟨hresult', hreturned'⟩ := h'.arrives _ (Nat.find_spec hany) hfirst
    exact ⟨hresult.trans hresult'.symm, hreturned.trans hreturned'.symm⟩
  · have hlate : ∀ j, readings.Hits spec j →
        settings.completionTimeout < readings.ends settings j := by
      intro j hj
      have hle : settings.completionTimeout ≤ readings.ends settings j :=
        Nat.le_of_not_lt fun hlt => hany ⟨j, hj, hlt⟩
      exact Nat.lt_of_le_of_ne hle (hedge j hj).symm
    obtain ⟨hresult, hreturned⟩ := h.expires hlate
    obtain ⟨hresult', hreturned'⟩ := h'.expires hlate
    exact ⟨hresult.trans hresult'.symm, hreturned.trans hreturned'.symm⟩

end Promise

section Poll

/-- The wait is about to make read `k`: it made those before at their ticks, and none of them showed
the target. -/
structure Polling (settings : Settings) (name : String) (spec : Spec) (readings : Readings)
    (start k : Nat) (s : Clock) : Prop where
  reads_eq : s.reads = (ticks settings start k).map (Prod.mk name)
  time_le_tick : s.time ≤ start + k * settings.pollInterval
  time_le_deadline : s.time ≤ start + settings.completionTimeout
  begun : ∀ i < k, i * settings.pollInterval ≤ settings.completionTimeout
  fresh : ∀ i < k, ¬ readings.Hits spec i

namespace Polling

variable {s : Clock} {k : Nat}

theorem zero : Polling settings name spec readings start 0 { time := start } where
  reads_eq := rfl
  time_le_tick := Nat.le_add_right _ _
  time_le_deadline := Nat.le_add_right _ _
  begun := nofun
  fresh := nofun

theorem length_reads (h : Polling settings name spec readings start k s) : s.reads.length = k := by
  rw [h.reads_eq, List.length_map, length_ticks]

theorem ends_eq (h : Polling settings name spec readings start k s) :
    s.ends readings (start + k * settings.pollInterval) = start + readings.ends settings k := by
  rw [Clock.ends, Nat.max_eq_right h.time_le_tick, h.length_reads, Readings.ends, Nat.add_assoc]

theorem read_reads (h : Polling settings name spec readings start k s) (time : Nat) :
    (s.read name (start + k * settings.pollInterval) time).reads =
      (ticks settings start (k + 1)).map (Prod.mk name) := by
  rw [Clock.read, h.reads_eq, Nat.max_eq_right h.time_le_tick, ticks_succ, List.map_append]
  rfl

/-- After a read that did not show the target, the next one is up. -/
theorem next (hbrief : ∀ j, readings.takes j < settings.pollInterval)
    (h : Polling settings name spec readings start k s)
    (hended : readings.ends settings k ≤ settings.completionTimeout)
    (hmissed : ¬ readings.Hits spec k) :
    Polling settings name spec readings start (k + 1)
      (s.read name (start + k * settings.pollInterval) (start + readings.ends settings k)) where
  reads_eq := h.read_reads _
  time_le_tick := Nat.add_le_add_left (ends_lt_tick hbrief (Nat.lt_succ_self k)).le start
  time_le_deadline := Nat.add_le_add_left hended start
  begun := ticks_le ((tick_le_ends k).trans hended)
  fresh i hi := by
    rcases Nat.lt_succ_iff_lt_or_eq.mp hi with hlt | rfl
    · exact h.fresh i hlt
    · exact hmissed

end Polling

theorem nextTick_ends (hbrief : ∀ j, readings.takes j < settings.pollInterval) (k : Nat) :
    nextTick settings.pollInterval (start + k * settings.pollInterval)
      (start + readings.ends settings k) = start + (k + 1) * settings.pollInterval := by
  have hnext : readings.ends settings k < (k + 1) * settings.pollInterval :=
    ends_lt_tick hbrief (Nat.lt_succ_self k)
  rw [nextTick, Nat.add_assoc, ← Nat.succ_mul]
  exact Nat.max_eq_left (Nat.add_le_add_left hnext.le start)

/-- The wait is over, in one of the two ways, and its reads were all of its node. -/
def Over (settings : Settings) (name : String) (spec : Spec) (readings : Readings) (start : Nat)
    (t : Clock) (elapsed : Option Nat) : Prop :=
  ∃ reads, t.reads = reads.map (Prod.mk name) ∧
    Ended settings name spec readings start reads t.time (verdict settings name elapsed)

namespace Polling

variable {s : Clock} {k : Nat}

theorem over_of_hit (h : Polling settings name spec readings start k s)
    (hended : readings.ends settings k ≤ settings.completionTimeout) (hhits : readings.Hits spec k) :
    Over settings name spec readings start
      (s.read name (start + k * settings.pollInterval) (start + readings.ends settings k))
      (some (start + readings.ends settings k - start)) := by
  rw [Nat.add_sub_cancel_left]
  exact ⟨_, h.read_reads _, .reached h.fresh hhits hended⟩

theorem over_of_late (hbrief : ∀ j, readings.takes j < settings.pollInterval)
    (h : Polling settings name spec readings start k s)
    (htick : k * settings.pollInterval ≤ settings.completionTimeout)
    (hlate : settings.completionTimeout ≤ readings.ends settings k) :
    Over settings name spec readings start
      (s.read name (start + k * settings.pollInterval) (start + settings.completionTimeout)) none :=
  ⟨_, h.read_reads _, .late hbrief h.fresh htick hlate⟩

theorem over_of_idle (h : Polling settings name spec readings start k s)
    (hover : settings.completionTimeout ≤ k * settings.pollInterval) :
    Over settings name spec readings start
      { s with time := start + settings.completionTimeout } none :=
  ⟨_, h.reads_eq, .idle h.fresh h.begun hover⟩

end Polling

theorem assures_poll_over (hbrief : ∀ j, readings.takes j < settings.pollInterval) {k : Nat}
    {s : Clock} (hpolling : Polling settings name spec readings start k s) :
    Assures (clock readings) (fun _ => True)
      (poll name spec settings.pollInterval (start + settings.completionTimeout)
        (start + k * settings.pollInterval))
      (fun t ended => Over settings name spec readings start t (ended.map (· - start))) s := by
  have hinterval : 0 < settings.pollInterval := Nat.zero_lt_of_lt (hbrief 0)
  -- the induction is on the reads, of which each has its own tick
  generalize htick : start + k * settings.pollInterval = tick
  induction tick using poll.induct settings.pollInterval (start + settings.completionTimeout)
    generalizing k s with
  | case1 tick hbefore ih =>
    subst htick
    rw [poll, dif_pos hbefore]
    refine Assures.ask fun _ hs answer u hserves => ⟨trivial, ?_⟩
    subst hs
    have hk : k * settings.pollInterval < settings.completionTimeout := by omega
    cases answer with
    | none =>
      obtain ⟨hlate, rfl⟩ := hserves
      rw [hpolling.ends_eq] at hlate
      rw [Nat.max_eq_right hpolling.time_le_deadline]
      refine Assures.done fun _ ht => ht ▸ ?_
      exact hpolling.over_of_late hbrief hk.le (Nat.le_of_add_le_add_left hlate)
    | some answer =>
      obtain ⟨time, read⟩ := answer
      obtain ⟨rfl, hintime, rfl, rfl⟩ := hserves
      rw [hpolling.ends_eq] at hintime ⊢
      rw [hpolling.length_reads]
      have hends : readings.ends settings k ≤ settings.completionTimeout :=
        Nat.le_of_add_le_add_left hintime
      dsimp only
      by_cases hhits : reached spec (readings.shows k) = true
      · rw [if_pos hhits]
        refine Assures.done fun _ ht => ht ▸ ?_
        exact hpolling.over_of_hit hends hhits
      · rw [if_neg hhits]
        exact ih _ (hpolling.next hbrief hends hhits) (nextTick_ends hbrief k).symm
  | case2 tick hbefore =>
    subst htick
    rw [poll, dif_neg hbefore]
    refine Assures.ask fun _ hs answer u hserves => ⟨trivial, Assures.done fun _ ht => ht ▸ ?_⟩
    subst hs
    have hover : settings.completionTimeout ≤ k * settings.pollInterval := by omega
    have hu : u = { s with time := start + settings.completionTimeout } := by
      rw [← Nat.max_eq_right hpolling.time_le_deadline]
      exact hserves
    exact hu ▸ hpolling.over_of_idle hover

end Poll

/-- A wait comes to an end, whatever its reads take and show. -/
theorem exists_waits (settings : Settings) (name : String) (spec : Spec) (readings : Readings)
    (start : Nat) : ∃ t elapsed, Waits settings name spec readings start t elapsed := by
  obtain ⟨ms, t, elapsed, hcourse, -⟩ := Permits.of_answered (E := clock readings)
    (Clock.exists_serves readings) (run settings name spec) { time := start }
  exact ⟨t, elapsed, ms, hcourse⟩

theorem Waits.over (hbrief : ∀ j, readings.takes j < settings.pollInterval) {t : Clock}
    {elapsed : Option Nat} (h : Waits settings name spec readings start t elapsed) :
    Over settings name spec readings start t elapsed := by
  obtain ⟨ms, hcourse⟩ := h
  have hinterval : settings.pollInterval ≠ 0 := Nat.ne_zero_of_lt (hbrief 0)
  have hrun : Assures (clock readings) (fun _ => True) (run settings name spec)
      (Over settings name spec readings start) { time := start } := by
    rw [run, if_neg hinterval]
    refine Assures.call fun s hs time u hserves => ⟨trivial, ?_⟩
    have hserved : time = s.time ∧ u = s := hserves
    obtain ⟨rfl, rfl⟩ := hserved
    obtain rfl : { time := start } = u := hs
    have hzero : Polling settings name spec readings start 0 { time := start } := .zero
    have hpoll := assures_poll_over hbrief hzero
    rw [Nat.zero_mul, Nat.add_zero] at hpoll
    refine Assures.bind (hpoll.mono fun v ended hover => ?_)
    exact Assures.done fun _ hv => hv ▸ hover
  exact hrun.result hcourse

/-- A wait keeps its promise, and reads no other node. -/
theorem Waits.bounded (hbrief : ∀ j, readings.takes j < settings.pollInterval) {t : Clock}
    {elapsed : Option Nat} (h : Waits settings name spec readings start t elapsed) :
    ∃ reads, t.reads = reads.map (Prod.mk name) ∧
      Bounded settings name spec readings start reads t.time (verdict settings name elapsed) := by
  obtain ⟨reads, hreads, hended⟩ := h.over hbrief
  exact ⟨reads, hreads, hended.bounded hbrief⟩

end Wait

end NodeRollout
