import NodeRollout.Proofs.Stages

/-! The log of a pass, read back. Its waits and its label updates can be told from the calls alone.
An `Account` of a part of the log says what it adds to them, how its waits ended, and what made it
fail; the accounts of two parts make one of the whole. -/
namespace NodeRollout

open Program

namespace Program.Event

/-- A call of the polling inside a wait. -/
def isTimed : Event Cluster → Bool
  | ⟨.readUntil .., _⟩ | ⟨.sleepUntil _, _⟩ => true
  | _ => false

/-- The node of a read inside a wait. -/
def awaits? : Event Cluster → Option String
  | ⟨.readUntil name _ _, _⟩ => some name
  | _ => none

/-- A read inside a wait that shows its node at the target. -/
def arrives (spec : Spec) : Event Cluster → Bool
  | ⟨.readUntil _ _ _, some (_, answer)⟩ => Wait.reached spec answer
  | _ => false

/-- The deadline of a wait has come. -/
def expires : Event Cluster → Bool
  | ⟨.readUntil _ _ _, none⟩ | ⟨.sleepUntil _, _⟩ => true
  | _ => false

/-- A call that a label update may make. -/
def touches : Event Cluster → Bool
  | ⟨.get _, _⟩ | ⟨.patch .., _⟩ => true
  | _ => false

/-- The failure of the list, or of a read outside of the waits. -/
def refused? : Event Cluster → Option Failure
  | ⟨.list, .error failure⟩ | ⟨.get _, .error failure⟩ => some failure
  | _ => none

/-- A write is a call of a label update. -/
theorem isPatch_eq_false_of_touches {e : Event Cluster} (h : e.touches = false) :
    e.isPatch = false := by
  match e with
  | ⟨.list, _⟩ | ⟨.upgrades, _⟩ | ⟨.push _, _⟩ | ⟨.now, _⟩ | ⟨.readUntil .., _⟩
  | ⟨.sleepUntil _, _⟩ | ⟨.count _, _⟩ => rfl

/-- A wait writes nothing, and a read that fails in it is no failure of the pass. -/
theorem quiet_of_isTimed {e : Event Cluster} (h : e.isTimed = true) :
    e.isPatch = false ∧ e.refused? = none := by
  match e with
  | ⟨.readUntil .., _⟩ | ⟨.sleepUntil _, _⟩ => exact ⟨rfl, rfl⟩

theorem expires_eq_false_of_arrives {spec : Spec} {e : Event Cluster} (h : e.arrives spec = true) :
    e.expires = false := by
  match e with
  | ⟨.readUntil _ _ _, some _⟩ => rfl

end Program.Event

namespace Pass

variable {spec : Spec} {name : String} {log rest events events' : List (Event Cluster)}

/-- The waits of a log. Each begins with a look at the clock, and its reads come right after it. -/
def waits : List (Event Cluster) → List (List (Event Cluster))
  | [] => []
  | ⟨.now, _⟩ :: rest => rest.takeWhile Event.isTimed :: waits rest
  | _ :: rest => waits rest

/-- The stretches of reads and writes of a log that begin with a write. Inside of such a stretch no
other begins. -/
def updatesFrom : (inside : Bool) → List (Event Cluster) → List (List (Event Cluster))
  | _, [] => []
  | inside, e :: rest =>
    if !inside && e.isPatch then (e :: rest.takeWhile Event.touches) :: updatesFrom true rest
    else updatesFrom (inside && e.touches) rest

/-- The label updates of a log, as far as they write. -/
def updates (log : List (Event Cluster)) : List (List (Event Cluster)) := updatesFrom false log

/-- The log does not go on with a read or a write. -/
def Calm (log : List (Event Cluster)) : Prop := ∀ e ∈ log.head?, e.touches = false

/-- All reads of the wait are of this node, and it begins with one. -/
structure On (name : String) (wait : List (Event Cluster)) : Prop where
  first : wait.head?.bind Event.awaits? = some name
  own : ∀ e ∈ wait, ∀ other, e.awaits? = some other → other = name

/-- The wait ended with a read that shows its node at the target. -/
structure Arrives (spec : Spec) (wait : List (Event Cluster)) : Prop where
  on : ∃ name, On name wait
  last : ∃ e ∈ wait.getLast?, e.arrives spec = true

/-- The wait ended at its deadline. -/
def Expires (wait : List (Event Cluster)) : Prop := ∃ e ∈ wait.getLast?, e.expires = true

/-- How waits ended: each with its node at the target, but for the last one where a node got
stuck. -/
inductive Ends (spec : Spec) : List (List (Event Cluster)) → Option String → Prop where
  | nil : Ends spec [] none
  | arrived {wait : List (Event Cluster)} {waits : List (List (Event Cluster))}
      {stuck : Option String} (arrives : Arrives spec wait) (rest : Ends spec waits stuck) :
      Ends spec (wait :: waits) stuck
  | expired {wait : List (Event Cluster)} {name : String} (on : On name wait)
      (expires : Expires wait) : Ends spec [wait] (some name)

/-- The update of one node's marker ran with this result. -/
def Updates (spec : Spec) (update : List (Event Cluster)) (result : Except Failure Bool) : Prop :=
  ∃ node, Runs (LabelUpdate.run node (selectPlan spec)).run update result

/-- What a part of a log adds to the waits and to the updates, and how it ended. -/
structure Account (spec : Spec) (events : List (Event Cluster))
    (ws us : List (List (Event Cluster))) (stuck : Option String) (failure : Option Failure) :
    Prop where
  waits_append : ∀ rest, waits (events ++ rest) = ws ++ waits rest
  updates_append : ∀ rest, Calm rest → updates (events ++ rest) = us ++ updates rest
  ends : Ends spec ws stuck
  refused : ∀ e ∈ events, ∀ f, e.refused? = some f → failure = some f
  updated : ∀ u ∈ us, ∃ result, Updates spec u result ∧ ∀ f, result = .error f → failure = some f
  cause : ∀ f, failure = some f → (∃ e ∈ events, e.refused? = some f) ∨
    ∃ u ∈ us, Updates spec u (.error f)

section Log

theorem calm_append (hevents : Calm events) (hrest : Calm rest) : Calm (events ++ rest) := by
  cases events with
  | nil => exact hrest
  | cons e events => exact hevents

theorem takeWhile_append_of_neg {p : Event Cluster → Bool} (hevents : ∀ e ∈ events, p e = true)
    (hrest : ∀ e ∈ rest.head?, p e = false) : (events ++ rest).takeWhile p = events := by
  rw [List.takeWhile_append_of_pos hevents]
  cases rest with
  | nil => rw [List.takeWhile_nil, List.append_nil]
  | cons e rest => rw [List.takeWhile_cons_of_neg (by simp [hrest e rfl]), List.append_nil]

theorem waits_cons {e : Event Cluster} (hnow : ∀ t, e ≠ ⟨.now, t⟩) :
    waits (e :: rest) = waits rest := by
  rw [waits]
  exact hnow

theorem list_ne_now (answer : Except Failure (List Node)) (t : Nat) :
    (⟨.list, answer⟩ : Event Cluster) ≠ ⟨.now, t⟩ := by
  intro h
  cases h

theorem count_ne_now (sample : Sample) (t : Nat) :
    (⟨.count sample, ()⟩ : Event Cluster) ≠ ⟨.now, t⟩ := by
  intro h
  cases h

theorem get_ne_now (answer : Except Failure Node) (t : Nat) :
    (⟨.get name, answer⟩ : Event Cluster) ≠ ⟨.now, t⟩ := by
  intro h
  cases h

theorem waits_append_of_quiet (hquiet : ∀ e ∈ events, ∀ t, e ≠ ⟨.now, t⟩) :
    waits (events ++ rest) = waits rest := by
  induction events with
  | nil => rfl
  | cons e events ih =>
    obtain ⟨hnow, hevents⟩ := List.forall_mem_cons.mp hquiet
    rw [List.cons_append, waits_cons hnow, ih hevents]

theorem waits_wait {t : Nat} {wait : List (Event Cluster)} {e : Event Cluster}
    (hwait : ∀ e ∈ wait, e.isTimed = true) (htimed : e.isTimed = false)
    (hnow : ∀ t, e ≠ ⟨.now, t⟩) :
    waits (⟨.now, t⟩ :: wait ++ e :: rest) = wait :: waits rest := by
  have hquiet : ∀ e ∈ wait, ∀ t, e ≠ ⟨.now, t⟩ := by
    rintro _ he t rfl
    exact Bool.false_ne_true (hwait _ he)
  rw [List.cons_append, waits, waits_append_of_quiet hquiet, waits_cons hnow,
    takeWhile_append_of_neg hwait (by simpa using htimed)]

theorem updates_cons {e : Event Cluster} (hpatch : e.isPatch = false) :
    updates (e :: rest) = updates rest := by
  rw [updates, updatesFrom, hpatch, Bool.and_false, if_neg Bool.false_ne_true]
  rfl

theorem updates_append_of_quiet (hquiet : ∀ e ∈ events, e.isPatch = false) :
    updates (events ++ rest) = updates rest := by
  induction events with
  | nil => rfl
  | cons e events ih =>
    obtain ⟨hpatch, hevents⟩ := List.forall_mem_cons.mp hquiet
    rw [List.cons_append, updates_cons hpatch, ih hevents]

/-- Inside of an update none begins. -/
theorem updatesFrom_inside (hevents : ∀ e ∈ events, e.touches = true) (hrest : Calm rest) :
    updatesFrom true (events ++ rest) = updates rest := by
  induction events with
  | nil =>
    cases rest with
    | nil => rfl
    | cons e rest =>
      have htouches : e.touches = false := hrest e rfl
      have hpatch := Event.isPatch_eq_false_of_touches htouches
      rw [updates_cons hpatch, List.nil_append, updatesFrom, htouches]
      rfl
  | cons e events ih =>
    obtain ⟨htouches, hevents⟩ := List.forall_mem_cons.mp hevents
    rw [List.cons_append, updatesFrom, htouches]
    exact ih hevents

theorem updates_update {e : Event Cluster} (hpatch : e.isPatch = true)
    (hevents : ∀ e ∈ events, e.touches = true) (hrest : Calm rest) :
    updates (e :: events ++ rest) = (e :: events) :: updates rest := by
  rw [List.cons_append, updates, updatesFrom, hpatch, updatesFrom_inside hevents hrest,
    takeWhile_append_of_neg hevents hrest]
  rfl

end Log

section Ends

variable {ws ws' : List (List (Event Cluster))} {wait : List (Event Cluster)}
  {stuck : Option String}

theorem Ends.append (h : Ends spec ws none) (h' : Ends spec ws' stuck) :
    Ends spec (ws ++ ws') stuck := by
  generalize hnone : (none : Option String) = reached at h
  induction h with
  | nil => exact h'
  | arrived arrives _ ih => exact .arrived arrives (ih hnone)
  | expired => cases hnone

theorem Ends.arrives (h : Ends spec ws none) : ∀ wait ∈ ws, Arrives spec wait := by
  generalize hnone : (none : Option String) = reached at h
  induction h with
  | nil => exact List.forall_mem_nil _
  | arrived arrives _ ih => exact List.forall_mem_cons.mpr ⟨arrives, ih hnone⟩
  | expired => cases hnone

theorem On.name_eq {other : String} (h : On name wait) (h' : On other wait) : other = name :=
  Option.some.inj (h'.first.symm.trans h.first)

theorem Arrives.not_expires (h : Arrives spec wait) : ¬ Expires wait := by
  rintro ⟨e, he, hexpires⟩
  obtain ⟨e', he', harrives⟩ := h.last
  obtain rfl := Option.some.inj ((Option.mem_def.mp he).symm.trans he')
  rw [Event.expires_eq_false_of_arrives harrives] at hexpires
  exact Bool.false_ne_true hexpires

/-- Where the last wait ended at its deadline, there its node is stuck, and nowhere else. -/
theorem Ends.stuck_iff (h : Ends spec ws stuck) :
    stuck = some name ↔ ∃ wait, ws.getLast? = some wait ∧ On name wait ∧ Expires wait := by
  induction h with
  | nil => simp
  | @arrived wait waits stuck arrives rest ih =>
    cases waits with
    | nil =>
      have hstuck : stuck ≠ some name := by
        cases rest
        simp
      simp [hstuck, arrives.not_expires]
    | cons next waits => rw [ih, List.getLast?_cons_cons]
  | @expired wait other on expires =>
    constructor
    · rintro ⟨⟩
      exact ⟨wait, rfl, on, expires⟩
    · rintro ⟨_, ⟨⟩, on', -⟩
      rw [on'.name_eq on]

end Ends

namespace Account

variable {ws us ws' us' : List (List (Event Cluster))} {stuck : Option String}
  {failure : Option Failure} {e : Event Cluster}

theorem nil : Account spec [] [] [] none none where
  waits_append _ := rfl
  updates_append _ _ := rfl
  ends := .nil
  refused := List.forall_mem_nil _
  updated := List.forall_mem_nil _
  cause := nofun

/-- A read comes before what follows, which may be the update that it was made for. -/
theorem cons (hnow : ∀ t, e ≠ ⟨.now, t⟩) (hpatch : e.isPatch = false) (hrefused : e.refused? = none)
    (h : Account spec events ws us stuck failure) :
    Account spec (e :: events) ws us stuck failure where
  waits_append rest := by rw [List.cons_append, waits_cons hnow, h.waits_append]
  updates_append rest hrest := by
    rw [List.cons_append, updates_cons hpatch, h.updates_append rest hrest]
  ends := h.ends
  refused := List.forall_mem_cons.mpr ⟨by simp [hrefused], h.refused⟩
  updated := h.updated
  cause f hf := (h.cause f hf).imp_left fun ⟨e, he, hf⟩ => ⟨e, List.mem_cons_of_mem _ he, hf⟩

/-- A call whose failure is that of the whole. -/
theorem refusal {f : Failure} (hnow : ∀ t, e ≠ ⟨.now, t⟩) (hpatch : e.isPatch = false)
    (hrefused : e.refused? = some f) : Account spec [e] [] [] none (some f) where
  waits_append rest := waits_cons hnow
  updates_append rest _ := updates_cons hpatch
  ends := .nil
  refused := by simp [hrefused]
  updated := List.forall_mem_nil _
  cause := by
    rintro _ ⟨⟩
    exact .inl ⟨e, List.mem_singleton_self e, hrefused⟩

theorem append_of_updates (h : Account spec events ws us none none)
    (h' : Account spec events' ws' us' stuck failure)
    (hupdates : ∀ rest, Calm rest →
      updates (events ++ (events' ++ rest)) = us ++ updates (events' ++ rest)) :
    Account spec (events ++ events') (ws ++ ws') (us ++ us') stuck failure where
  waits_append rest := by
    rw [List.append_assoc, h.waits_append, h'.waits_append, List.append_assoc]
  updates_append rest hrest := by
    rw [List.append_assoc, hupdates rest hrest, h'.updates_append rest hrest, List.append_assoc]
  ends := h.ends.append h'.ends
  refused := by
    refine List.forall_mem_append.mpr ⟨fun e he f hf => ?_, h'.refused⟩
    cases h.refused e he f hf
  updated := by
    refine List.forall_mem_append.mpr ⟨fun u hu => ?_, h'.updated⟩
    obtain ⟨result, hupdates, hfailed⟩ := h.updated u hu
    refine ⟨result, hupdates, fun f hf => ?_⟩
    cases hfailed f hf
  cause f hf := by
    rcases h'.cause f hf with ⟨e, he, hrefused⟩ | ⟨u, hu, hupdates⟩
    · exact .inl ⟨e, List.mem_append_right _ he, hrefused⟩
    · exact .inr ⟨u, List.mem_append_right _ hu, hupdates⟩

theorem append (h : Account spec events ws us none none)
    (h' : Account spec events' ws' us' stuck failure) (hcalm : Calm events') :
    Account spec (events ++ events') (ws ++ ws') (us ++ us') stuck failure :=
  h.append_of_updates h' fun _ hrest => h.updates_append _ (calm_append hcalm hrest)

/-- After a part without writes anything may follow. -/
theorem append_of_quiet (h : Account spec events ws [] none none)
    (hquiet : ∀ e ∈ events, e.isPatch = false)
    (h' : Account spec events' ws' us' stuck failure) :
    Account spec (events ++ events') (ws ++ ws') us' stuck failure :=
  h.append_of_updates h' fun _ _ => updates_append_of_quiet hquiet

theorem waits_eq (h : Account spec events ws us stuck failure) : waits events = ws := by
  have hwaits := h.waits_append []
  rwa [List.append_nil, waits, List.append_nil] at hwaits

theorem updates_eq (h : Account spec events ws us stuck failure) : updates events = us := by
  have hupdates := h.updates_append [] nofun
  rwa [List.append_nil, updates, updates, updatesFrom, List.append_nil] at hupdates

end Account

/-- Why a procedure failed, if it did. -/
def failure? {α : Type} : Except Failure α → Option Failure
  | .ok _ => none
  | .error failure => some failure

section Procedures

variable {settings : Settings} {node : Node}

/-- The calls of an update, of which the first one writes. -/
theorem touches_of_attempt {plan : LabelPlan} {n : Nat} {r : Except Failure Bool}
    (h : Runs (LabelUpdate.attempt plan name n node).run events r) :
    (∀ e ∈ events, e.touches = true) ∧ (∀ e ∈ events.head?, e.isPatch = true) ∧
      ∀ e ∈ events, ∀ f, e.refused? = some f → r = .error f := by
  induction n generalizing node events with
  | zero =>
    cases h
    simp
  | succ n ih =>
    cases LabelUpdate.attempted_of_runs h with
    | needless => simp
    | written => simp [Event.touches, Event.isPatch, Event.refused?]
    | refused => simp [Event.touches, Event.isPatch, Event.refused?]
    | unread => simp [Event.touches, Event.isPatch, Event.refused?]
    | again hplan hrest =>
      obtain ⟨htouches, -, hrefused⟩ := ih hrest
      simpa [Event.touches, Event.isPatch, Event.refused?] using ⟨htouches, hrefused⟩

/-- The updates among these calls of one update: itself, unless it made no call. -/
def callsOf (update : List (Event Cluster)) : List (List (Event Cluster)) :=
  if update.isEmpty then [] else [update]

theorem failure?_eq_some {α : Type} {r : Except Failure α} {f : Failure} :
    failure? r = some f ↔ r = .error f := by
  cases r <;> simp [failure?]

theorem failed_of_update_nil {r : Except Failure Bool}
    (h : Runs (LabelUpdate.run node (selectPlan spec)).run [] r) : failure? r = none := by
  rw [LabelUpdate.run, LabelUpdate.maxAttempts, LabelUpdate.attempt_succ] at h
  split at h
  · cases h
    rfl
  · cases h

theorem account_update {r : Except Failure Bool}
    (h : Runs (LabelUpdate.run node (selectPlan spec)).run events r) :
    Account spec events [] (callsOf events) none (failure? r) := by
  cases events with
  | nil =>
    rw [failed_of_update_nil h]
    exact .nil
  | cons first events =>
    obtain ⟨htouches, hpatch, hrefused⟩ := touches_of_attempt h
    have hquiet : ∀ e ∈ first :: events, ∀ t, e ≠ ⟨.now, t⟩ := by
      rintro _ he t rfl
      exact Bool.false_ne_true (htouches _ he)
    have hupdates : Updates spec (first :: events) r := ⟨node, h⟩
    exact {
      waits_append := fun rest => waits_append_of_quiet hquiet
      updates_append := fun rest hrest =>
        updates_update (hpatch first rfl) (List.forall_mem_cons.mp htouches).2 hrest
      ends := .nil
      refused := fun e he f hf => failure?_eq_some.mpr (hrefused e he f hf)
      updated := List.forall_mem_singleton.mpr
        ⟨r, hupdates, fun f hf => failure?_eq_some.mpr hf⟩
      cause := fun f hf => .inr ⟨_, List.mem_singleton_self _, failure?_eq_some.mp hf ▸ hupdates⟩ }

/-- A call that is neither read nor written by the waits and updates. -/
theorem account_count (sample : Sample) : Account spec [⟨.count sample, ()⟩] [] [] none none :=
  Account.nil.cons nofun rfl rfl

theorem account_select {r : Except Failure Unit} (h : Runs (select spec node).run events r) :
    ∃ update result, Runs (LabelUpdate.run node (selectPlan spec)).run update result ∧
      failure? r = failure? result ∧ update <+: events ∧
      Account spec events [] (callsOf update) none (failure? r) := by
  rcases runs_attempt_iff.mp h with ⟨failure, hupdate, rfl⟩ | ⟨first, a, rest, hupdate, hrest, rfl⟩
  · exact ⟨events, _, hupdate, rfl, List.prefix_refl events, account_update hupdate⟩
  · refine ⟨first, _, hupdate, ?_⟩
    have haccount := account_update hupdate
    cases a with
    | false =>
      cases hrest
      exact ⟨rfl, List.prefix_append first [], (List.append_nil first).symm ▸ haccount⟩
    | true =>
      cases hrest with
      | ask answer hrest =>
        cases hrest
        have hcalm : Calm [⟨.count (.selected node.role), answer⟩] := by simp [Calm, Event.touches]
        have hcount := haccount.append (account_count _) hcalm
        rw [List.append_nil, List.append_nil] at hcount
        exact ⟨rfl, List.prefix_append first _, hcount⟩

/-- The calls of a poll, of which the last one decides. -/
theorem timed_of_poll {interval deadline tick : Nat} {ended : Option Nat}
    (h : Runs (Wait.poll name spec interval deadline tick) events ended) :
    (∀ e ∈ events, e.isTimed = true ∧ ∀ other, e.awaits? = some other → other = name) ∧
      ∃ e ∈ events.getLast?, if ended.isSome then e.arrives spec = true else e.expires = true := by
  induction tick using Wait.poll.induct interval deadline generalizing events with
  | case1 tick htick ih =>
    rw [Wait.poll, dif_pos htick] at h
    cases h with
    | @ask _ _ events _ answer hrest =>
      cases answer with
      | none =>
        cases hrest
        simp [Event.isTimed, Event.awaits?, Event.expires]
      | some answer =>
        obtain ⟨time, read⟩ := answer
        cases hreached : Wait.reached spec read with
        | true =>
          simp only [hreached, if_true] at hrest
          cases hrest
          simp [Event.isTimed, Event.awaits?, Event.arrives, hreached]
        | false =>
          simp only [hreached, Bool.false_eq_true, if_false] at hrest
          obtain ⟨hevents, e, he, hlast⟩ := ih time hrest
          refine ⟨List.forall_mem_cons.mpr ⟨?_, hevents⟩, e, ?_, hlast⟩
          · simp [Event.isTimed, Event.awaits?]
          · rw [List.getLast?_cons, he]
            rfl
  | case2 tick htick =>
    rw [Wait.poll, dif_neg htick] at h
    cases h with
    | ask answer hrest =>
      cases hrest
      simp [Event.isTimed, Event.awaits?, Event.expires]

/-- Waits that read before they end, and a batch that has room. -/
structure Proper (settings : Settings) : Prop where
  interval : 0 < settings.pollInterval
  timeout : 0 < settings.completionTimeout
  room : 0 < settings.defaultMaxUnavailable

theorem runs_wait (hproper : Proper settings) {elapsed : Option Nat}
    (h : Runs (Wait.run settings name spec) events elapsed) :
    ∃ t wait, events = ⟨.now, t⟩ :: wait ∧ (∀ e ∈ wait, e.isTimed = true) ∧ On name wait ∧
      ∃ e ∈ wait.getLast?, if elapsed.isSome then e.arrives spec = true else e.expires = true := by
  obtain ⟨t, wait, ended, rfl, rfl, hpoll⟩ :=
    Wait.polls_of_run (Nat.ne_of_gt hproper.interval) h
  obtain ⟨htimed, hlast⟩ := timed_of_poll hpoll
  rw [Option.isSome_map]
  refine ⟨t, wait, rfl, fun e he => (htimed e he).1, ⟨?_, fun e he => (htimed e he).2⟩, hlast⟩
  -- the deadline is yet to come when the wait begins
  have htick : t < t + settings.completionTimeout ∧ 0 < settings.pollInterval :=
    ⟨Nat.lt_add_of_pos_right hproper.timeout, hproper.interval⟩
  rw [Wait.poll, dif_pos htick] at hpoll
  cases hpoll
  rfl

/-- One wait, with the count at its end. -/
structure Awaited (spec : Spec) (name : String) (events : List (Event Cluster)) (reached : Bool) :
    Prop where
  account : ∃ wait, On name wait ∧
    Account spec events [wait] [] (if reached then none else some name) none
  calm : ∀ rest, Calm (events ++ rest)
  quiet : ∀ e ∈ events, e.isPatch = false

theorem awaited_of_runs (hproper : Proper settings) {reached : Bool}
    (h : Runs (await settings spec node) events reached) :
    Awaited spec node.name events reached := by
  obtain ⟨waiting, elapsed, hwait, rfl, rfl⟩ := waits_of_await h
  obtain ⟨t, wait, rfl, htimed, hon, hlast⟩ := runs_wait hproper hwait
  have hwaiting : ∀ e ∈ wait, e.isPatch = false ∧ e.refused? = none :=
    fun e he => Event.quiet_of_isTimed (htimed e he)
  have hquiet : ∀ e ∈ ⟨.now, t⟩ :: wait ++ [(⟨.count (ending node elapsed), ()⟩ : Event Cluster)],
      e.isPatch = false ∧ e.refused? = none := by
    refine List.forall_mem_append.mpr ⟨List.forall_mem_cons.mpr ⟨⟨rfl, rfl⟩, hwaiting⟩, ?_⟩
    exact List.forall_mem_singleton.mpr ⟨rfl, rfl⟩
  refine ⟨⟨wait, hon, ?_⟩, fun rest => by simp [Calm, Event.touches], fun e he => (hquiet e he).1⟩
  exact {
    waits_append := fun rest => by
      rw [List.append_assoc]
      exact waits_wait htimed rfl nofun
    updates_append := fun rest _ => updates_append_of_quiet fun e he => (hquiet e he).1
    ends := by
      obtain ⟨e, he, hlast⟩ := hlast
      cases hreached : elapsed.isSome with
      | true =>
        rw [hreached] at hlast
        exact .arrived ⟨⟨_, hon⟩, e, he, hlast⟩ .nil
      | false =>
        rw [hreached] at hlast
        exact .expired hon ⟨e, he, by simpa using hlast⟩
    refused := fun e he f hf => by
      rw [(hquiet e he).2] at hf
      cases hf
    updated := List.forall_mem_nil _
    cause := nofun }

/-- The nodes that were awaited: all of them, or those up to the one that got stuck. -/
inductive Asked : List Node → Option Node → List Node → Prop where
  | all (nodes : List Node) : Asked nodes none nodes
  | upTo (earlier : List Node) (node : Node) (later : List Node) :
      Asked (earlier ++ node :: later) (some node) (earlier ++ [node])

theorem Asked.cons {nodes asked : List Node} {stuck : Option Node} (node : Node)
    (h : Asked nodes stuck asked) : Asked (node :: nodes) stuck (node :: asked) := by
  cases h with
  | all => exact .all _
  | upTo earlier stuck later => exact .upTo (node :: earlier) stuck later

theorem Asked.eq_of_none {nodes asked : List Node} (h : Asked nodes none asked) :
    asked = nodes := by
  generalize hnone : (none : Option Node) = stuck at h
  cases h with
  | all => rfl
  | upTo => cases hnone

/-- Waits for several nodes in turn. -/
structure AwaitedAll (spec : Spec) (nodes : List Node) (events : List (Event Cluster))
    (stuck : Option Node) : Prop where
  account : ∃ asked ws, Asked nodes stuck asked ∧
    List.Forall₂ (fun node wait => On node.name wait) asked ws ∧
    Account spec events ws [] (stuck.map Node.name) none
  quiet : ∀ e ∈ events, e.isPatch = false
  none_of_nil : nodes = [] → events = []

theorem awaitedAll_of_runs (hproper : Proper settings) {nodes : List Node} {stuck : Option Node}
    (h : Runs (awaitAll settings spec nodes) events stuck) :
    AwaitedAll spec nodes events stuck := by
  induction nodes generalizing events with
  | nil =>
    cases h
    exact ⟨⟨[], [], .all [], .nil, .nil⟩, List.forall_mem_nil _, fun _ => rfl⟩
  | cons node rest ih =>
    obtain ⟨first, reached, last, hawait, hrest, rfl⟩ := runs_bind_iff.mp h
    have hawaited := awaited_of_runs hproper hawait
    obtain ⟨wait, hon, haccount⟩ := hawaited.account
    cases reached with
    | false =>
      cases hrest
      rw [List.append_nil]
      exact ⟨⟨[node], [wait], .upTo [] node rest, .cons hon .nil, haccount⟩, hawaited.quiet, nofun⟩
    | true =>
      obtain ⟨⟨asked, ws, hasked, hons, haccount'⟩, hquiet, -⟩ := ih hrest
      exact ⟨⟨node :: asked, wait :: ws, hasked.cons node, .cons hon hons,
        haccount.append_of_quiet hawaited.quiet haccount'⟩,
        List.forall_mem_append.mpr ⟨hawaited.quiet, hquiet⟩, nofun⟩

end Procedures

end Pass

end NodeRollout
