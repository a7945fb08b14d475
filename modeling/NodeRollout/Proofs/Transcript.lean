import NodeRollout.Proofs.Assurance

/-! The calls of a run with their answers, kept beside the state. Assertions may then speak of what
was asked before, and `Assures` is the rule for every sequence of answers: with nothing but the log
as its state a program meets an environment that answers as it likes. -/
namespace NodeRollout

section Recording

variable {I : Interface} {σ α : Type}

/-- The setting with the log of the calls beside its state. -/
def Setting.recorded (E : Setting I σ) : Setting I (σ × List (Program.Event I)) where
  Serves s c answer t := E.Serves s.1 c answer t.1 ∧ t.2 = s.2 ++ [⟨c, answer⟩]
  Others s t := E.Others s.1 t.1 ∧ t.2 = s.2
  idle s := ⟨E.idle s.1, rfl⟩
  chain a b := ⟨E.chain a.1 b.1, b.2.trans a.2⟩

theorem Course.recorded {E : Setting I σ} {s t : σ} {ms : List (Moment I σ)} {p q : Program I α}
    (h : Course E s p ms t q) (log : List (Program.Event I)) :
    ∃ ms', Course E.recorded (s, log) p ms' (t, log ++ ms.map Moment.event) q := by
  -- the log at the start is any, since the rest of a course begins with a longer one
  induction h generalizing log with
  | stay s p =>
    rw [List.map_nil, List.append_nil]
    exact ⟨[], .stay _ p⟩
  | @others s s' t p q ms step _ ih =>
    obtain ⟨ms', hrest⟩ := ih log
    have hothers : E.recorded.Others (s, log) (s', log) := ⟨step, rfl⟩
    exact ⟨ms', .others hothers hrest⟩
  | @call s s' t c next q ms answer step _ ih =>
    obtain ⟨ms', hrest⟩ := ih (log ++ [⟨c, answer⟩])
    rw [List.append_assoc] at hrest
    exact ⟨_, .call ⟨step, rfl⟩ hrest⟩

/-- Questions that are answered in any way that satisfies `ok`. -/
def Setting.answered (ok : Program.Event I → Prop) : Setting I Unit where
  Serves _ c answer _ := ok ⟨c, answer⟩
  Others _ _ := True
  idle _ := trivial
  chain _ _ := trivial

/-- The log of an environment that answers in any way that satisfies `ok`. -/
abbrev logged (ok : Program.Event I → Prop) : Setting I (Unit × List (Program.Event I)) :=
  (Setting.answered ok).recorded

theorem Program.Runs.course {ok : Event I → Prop} {p : Program I α} {events : List (Event I)}
    {result : α} (h : Runs p events result) (hok : ∀ e ∈ events, ok e) :
    ∃ ms, Course (Setting.answered ok) () p ms () (.done result) ∧
      ms.map Moment.event = events := by
  induction h with
  | done result => exact ⟨[], .stay () _, rfl⟩
  | @ask c next events result answer _ ih =>
    obtain ⟨hanswer, hrest⟩ := List.forall_mem_cons.mp hok
    obtain ⟨ms, hcourse, hevents⟩ := ih hrest
    exact ⟨⟨(), ⟨c, answer⟩, ()⟩ :: ms, .call hanswer hcourse, by rw [List.map_cons, hevents]⟩

/-- A run whose calls leave the state as it is. -/
theorem Program.Runs.course_still {E : Setting I σ} {s : σ} {p : Program I α}
    {events : List (Event I)} {result : α} (h : Runs p events result)
    (hserves : ∀ e ∈ events, E.Serves s e.call e.answer s) :
    Course E s p (events.map fun e => ⟨s, e, s⟩) s (.done result) := by
  induction h with
  | done result => exact .stay s _
  | ask answer _ ih =>
    obtain ⟨hcall, hrest⟩ := List.forall_mem_cons.mp hserves
    exact .call hcall (ih hrest)

/-- A run of two programs one after the other is a run of each. -/
theorem Program.runs_bind_iff {β : Type} {p : Program I α} {f : α → Program I β}
    {events : List (Event I)} {result : β} :
    Runs (p >>= f) events result ↔ ∃ first a rest, Runs p first a ∧ Runs (f a) rest result ∧
      events = first ++ rest := by
  constructor
  · intro h
    induction p generalizing events with
    | done a => exact ⟨[], a, events, .done a, h, rfl⟩
    | ask c next ih =>
      cases h with
      | @ask _ _ events _ answer hrest =>
        obtain ⟨first, a, rest, hfirst, hlast, rfl⟩ := ih answer hrest
        exact ⟨⟨c, answer⟩ :: first, a, rest, .ask answer hfirst, hlast, rfl⟩
  · rintro ⟨first, a, rest, hfirst, hlast, rfl⟩
    induction hfirst with
    | done a => exact hlast
    | ask answer _ ih => exact .ask answer (ih hlast)

/-- A procedure followed by another one; its failure ends both. -/
theorem Program.runs_attempt_iff {ε β : Type} {x : Attempt ε I α} {f : α → Attempt ε I β}
    {events : List (Event I)} {result : Except ε β} :
    Runs (x >>= f).run events result ↔
      (∃ failure, Runs x.run events (.error failure) ∧ result = .error failure) ∨
      ∃ first a rest, Runs x.run first (.ok a) ∧ Runs (f a).run rest result ∧
        events = first ++ rest := by
  have hbind : Runs (x >>= f).run events result ↔ Runs (x.run >>= ExceptT.bindCont f) events result :=
    Iff.rfl
  rw [hbind, runs_bind_iff]
  constructor
  · rintro ⟨first, r, rest, hfirst, hrest, rfl⟩
    cases r with
    | ok a => exact .inr ⟨first, a, rest, hfirst, hrest, rfl⟩
    | error failure =>
      cases hrest
      exact .inl ⟨failure, (List.append_nil first).symm ▸ hfirst, rfl⟩
  · rintro (⟨failure, hfirst, rfl⟩ | ⟨first, a, rest, hfirst, hrest, rfl⟩)
    · exact ⟨events, _, [], hfirst, .done _, (List.append_nil events).symm⟩
    · exact ⟨first, _, rest, hfirst, hrest, rfl⟩

theorem Program.runs_lift_iff {ε β : Type} {p : Program I α} {f : α → Attempt ε I β}
    {events : List (Event I)} {result : Except ε β} :
    Runs ((ExceptT.lift p : Attempt ε I α) >>= f).run events result ↔
      ∃ first a rest, Runs p first a ∧ Runs (f a).run rest result ∧ events = first ++ rest := by
  have hlift : ((ExceptT.lift p : Attempt ε I α) >>= f).run = p >>= fun a => (f a).run := by
    rw [ExceptT.run_bind, ExceptT.run_lift, bind_map_left]
  rw [hlift, runs_bind_iff]

/-- What a program comes to is decided by the answers. -/
theorem Program.Runs.result_eq {p : Program I α} {events : List (Event I)} {r r' : α}
    (h : Runs p events r) (h' : Runs p events r') : r = r' := by
  induction h with
  | done =>
    cases h'
    rfl
  | ask answer _ ih =>
    cases h' with
    | ask _ hrest => exact ih hrest

/-- The calls were answered as this world answers, which may look at those before. -/
def Program.Follows (world : List (Event I) → (c : I.Call) → I.Answer c) (events : List (Event I)) :
    Prop :=
  ∀ seen e rest, events = seen ++ e :: rest → e.answer = world seen e.call

/-- However the world answers, a program comes to an end. -/
theorem Program.exists_runs (world : List (Event I) → (c : I.Call) → I.Answer c)
    (p : Program I α) : ∃ events result, Runs p events result ∧ Follows world events := by
  -- the rest of a run sees a world that remembers the first call
  induction p generalizing world with
  | done a => exact ⟨[], a, .done a, fun _ _ _ h => by simp at h⟩
  | ask c next ih =>
    let first : Event I := ⟨c, world [] c⟩
    obtain ⟨events, result, hrun, hfollows⟩ := ih first.answer fun seen => world (first :: seen)
    refine ⟨first :: events, result, .ask _ hrun, ?_⟩
    intro seen e rest hevents
    cases seen with
    | nil =>
      obtain ⟨rfl, -⟩ := List.cons.inj hevents
      rfl
    | cons _ seen =>
      obtain ⟨rfl, hrest⟩ := List.cons.inj hevents
      exact hfollows seen e rest hrest

/-- What is assured of the log holds for every sequence of answers. -/
theorem Assures.runs {ok : Program.Event I → Prop}
    {G : Moment I (Unit × List (Program.Event I)) → Prop} {p : Program I α}
    {Q : Unit × List (Program.Event I) → α → Prop} {log events : List (Program.Event I)}
    {result : α} (h : Assures (logged ok) G p Q ((), log)) (hrun : Program.Runs p events result)
    (hok : ∀ e ∈ events, ok e) : Q ((), log ++ events) result := by
  obtain ⟨ms, hcourse, rfl⟩ := hrun.course hok
  obtain ⟨ms', hrecorded⟩ := hcourse.recorded log
  exact h.result hrecorded

end Recording

namespace Program.Event

variable {spec : Spec} {name : String}

/-- A read of this node that shows it at the target. -/
def shows (spec : Spec) (name : String) : Event Cluster → Bool
  | ⟨.get asked, answer⟩ => asked == name && Wait.reached spec answer
  | ⟨.readUntil asked _ _, some (_, answer)⟩ => asked == name && Wait.reached spec answer
  | _ => false

/-- The node of a write, whether or not it was carried out. -/
def tried? : Event Cluster → Option String
  | ⟨.patch seen _, _⟩ => some seen.name
  | _ => none

/-- The node of a write that was carried out. -/
def marked? : Event Cluster → Option String
  | ⟨.patch seen _, .ok ()⟩ => some seen.name
  | _ => none

end Program.Event

theorem Spec.workerLimit_pos (spec : Spec) {default : Nat} (hdefault : 0 < default) :
    0 < spec.workerLimit default := by
  unfold Spec.workerLimit
  split <;> omega

namespace Pass

/-- What a pass does with the nodes that it listed. -/
def afterList (settings : Settings) (spec : Spec) (nodes : List Node) : Procedure PassOutcome := do
  if !nodes.any (·.needsUpgrade spec) then return .steady
  match ← controlPlaneTier settings spec (nodes.filter (·.isControlPlane)) with
  | some outcome => return outcome
  | none => workerTier settings spec (nodes.filter (!·.isControlPlane))

theorem run_eq {settings : Settings} {spec : Spec} (hnoop : spec.isNoop = false) :
    (run settings spec).run = .ask .list fun
      | .ok nodes => (afterList settings spec nodes).run
      | .error failure => .done (.error failure) := by
  simp only [run, hnoop]
  refine congrArg (Program.ask (I := Cluster) .list) ?_
  funext answer
  cases answer with
  | error failure => rfl
  | ok nodes =>
    simp only [Program.andThen, ExceptT.bindCont, List.partition_eq_filter_filter]
    rfl

/-- Waits that are short enough to be evaluated. -/
def shortWaits : Settings := { pollInterval := 5, completionTimeout := 60 }

end Pass

end NodeRollout
