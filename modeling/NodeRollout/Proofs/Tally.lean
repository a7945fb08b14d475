import NodeRollout.Metrics
import NodeRollout.Proofs.Account
import NodeRollout.Proofs.Throttle

/-! What the parts of a pass count. The samples are told from the other calls: a mark is counted
with the update that made it, and a wait with its end. A `Tally` of a part of the log says so, and
the tallies of two parts make one of the whole. -/
namespace NodeRollout

open Program

namespace Program.Event

/-- What is counted by this call. -/
def sample? : Event Cluster → Option Sample
  | ⟨.count sample, _⟩ => some sample
  | _ => none

/-- A write that was planned on a record of this role. -/
def plannedOn (role : Role) : Event Cluster → Bool
  | ⟨.patch seen _, _⟩ => seen.role == role
  | _ => false

theorem sample?_of_touches {e : Event Cluster} (h : e.touches = true) : e.sample? = none := by
  match e with
  | ⟨.get _, _⟩ | ⟨.patch .., _⟩ => rfl

theorem sample?_of_isTimed {e : Event Cluster} (h : e.isTimed = true) : e.sample? = none := by
  match e with
  | ⟨.readUntil .., _⟩ | ⟨.sleepUntil _, _⟩ => rfl

theorem marked?_of_not_isPatch {e : Event Cluster} (h : e.isPatch = false) : e.marked? = none := by
  match e with
  | ⟨.list, _⟩ | ⟨.get _, _⟩ | ⟨.upgrades, _⟩ | ⟨.push _, _⟩ | ⟨.now, _⟩ | ⟨.readUntil .., _⟩
  | ⟨.sleepUntil _, _⟩ | ⟨.count _, _⟩ => rfl

theorem read?_of_not_touches {e : Event Cluster} (h : e.touches = false) : e.read? = none := by
  match e with
  | ⟨.list, _⟩ | ⟨.upgrades, _⟩ | ⟨.push _, _⟩ | ⟨.now, _⟩ | ⟨.readUntil .., _⟩
  | ⟨.sleepUntil _, _⟩ | ⟨.count _, _⟩ => rfl

theorem not_touches_of_isTimed {e : Event Cluster} (h : e.isTimed = true) : e.touches = false := by
  match e with
  | ⟨.readUntil .., _⟩ | ⟨.sleepUntil _, _⟩ => rfl

theorem not_arrives_of_expires {spec : Spec} {e : Event Cluster} (h : e.expires = true) :
    e.arrives spec = false := by
  cases harrives : e.arrives spec with
  | false => rfl
  | true => exact absurd ((expires_eq_false_of_arrives harrives).symm.trans h) Bool.false_ne_true

end Program.Event

/-- A wait of a node of this role, however long it took. -/
def Sample.isWait (role : Role) : Sample → Bool
  | .waited r _ => r == role
  | _ => false

namespace Pass

variable {settings : Settings} {spec : Spec} {node : Node} {nodes reached reached' : List Node}
  {name : String} {stuck : Option Node} {e : Event Cluster}
  {events events' rest : List (Event Cluster)}

def samples (log : List (Event Cluster)) : List Sample := log.filterMap Event.sample?

/-- The update set a marker, on a node that it was begun for with a record of this role. -/
def marks (role : Role) (update : List (Event Cluster)) : Bool :=
  update.any Event.isWritten && update.head?.any (Event.plannedOn role)

/-- How many waits ended with a read that shows the node at the target. -/
def arrivals (spec : Spec) (log : List (Event Cluster)) : Nat :=
  (waits log).countP fun wait => wait.getLast?.any (Event.arrives spec)

/-- The records that were read, but for those that an update reads again after a write. -/
def examinedFrom : (written : Bool) → List (Event Cluster) → List Node
  | _, [] => []
  | written, e :: rest =>
    (if written then [] else e.read?.toList) ++ examinedFrom e.isPatch rest

def examined (log : List (Event Cluster)) : List Node := examinedFrom false log

section Readings

theorem samples_append : samples (events ++ rest) = samples events ++ samples rest :=
  List.filterMap_append ..

theorem samples_cons (hsample : e.sample? = none) : samples (e :: rest) = samples rest :=
  List.filterMap_cons_none hsample

theorem samples_eq_nil (hnone : ∀ e ∈ events, e.sample? = none) : samples events = [] :=
  List.filterMap_eq_nil_iff.mpr hnone

theorem selections_append : selections (events ++ rest) = selections events ++ selections rest :=
  List.filterMap_append ..

theorem selections_eq_nil (hnone : ∀ e ∈ events, e.isPatch = false) : selections events = [] :=
  List.filterMap_eq_nil_iff.mpr fun e he => Event.marked?_of_not_isPatch (hnone e he)

theorem examined_cons (hpatch : e.isPatch = false) :
    examined (e :: rest) = e.read?.toList ++ examined rest := by
  rw [examined, examinedFrom, hpatch, if_neg Bool.false_ne_true]
  rfl

theorem examined_append_of_quiet (hquiet : ∀ e ∈ events, e.isPatch = false) :
    examined (events ++ rest) = events.filterMap Event.read? ++ examined rest := by
  induction events with
  | nil => rfl
  | cons e events ih =>
    obtain ⟨hpatch, hevents⟩ := List.forall_mem_cons.mp hquiet
    rw [List.cons_append, examined_cons hpatch, ih hevents]
    cases hread : e.read? <;> simp [hread]

/-- Whether something was written just before matters only to a read. -/
theorem examinedFrom_of_calm (hrest : Calm rest) (written : Bool) :
    examinedFrom written rest = examined rest := by
  cases rest with
  | nil => rfl
  | cons e rest =>
    have hread : e.read? = none := Event.read?_of_not_touches (hrest e rfl)
    simp [examined, examinedFrom, hread]

end Readings

/-- The waits, the updates and the reads of two parts of a log are those of the whole. -/
structure Apart (events rest : List (Event Cluster)) : Prop where
  waits_append : waits (events ++ rest) = waits events ++ waits rest
  updates_append : updates (events ++ rest) = updates events ++ updates rest
  examined_append : examined (events ++ rest) = examined events ++ examined rest

/-- Between these two no update goes on. -/
def Breaks (events rest : List (Event Cluster)) : Prop :=
  (∀ e ∈ events, e.isPatch = false) ∨ Calm rest

/-- A part of a log whose waits are over, and whose updates are over unless a read or write comes
next. -/
def Closed (events : List (Event Cluster)) : Prop := ∀ rest, Breaks events rest → Apart events rest

namespace Closed

/-- It is enough to know what the part adds to everything that may follow. -/
theorem of_adds {ws us : List (List (Event Cluster))} {ns : List Node}
    (hwaits : ∀ rest, waits (events ++ rest) = ws ++ waits rest)
    (hupdates : ∀ rest, Breaks events rest → updates (events ++ rest) = us ++ updates rest)
    (hexamined : ∀ rest, Breaks events rest → examined (events ++ rest) = ns ++ examined rest) :
    Closed events := by
  intro rest hrest
  have hnil : Breaks events [] := .inr nofun
  have hws : waits events = ws := by simpa [waits] using hwaits []
  have hus : updates events = us := by simpa [updates, updatesFrom] using hupdates [] hnil
  have hns : examined events = ns := by simpa [examined, examinedFrom] using hexamined [] hnil
  exact ⟨hws ▸ hwaits rest, hus ▸ hupdates rest hrest, hns ▸ hexamined rest hrest⟩

theorem of_quiet {ws : List (List (Event Cluster))} (hquiet : ∀ e ∈ events, e.isPatch = false)
    (hwaits : ∀ rest, waits (events ++ rest) = ws ++ waits rest) : Closed events :=
  of_adds hwaits (fun _ _ => (updates_append_of_quiet hquiet).trans (List.nil_append _).symm)
    (fun _ _ => examined_append_of_quiet hquiet)

theorem nil : Closed [] := fun _ _ => ⟨rfl, rfl, rfl⟩

theorem cons (hnow : ∀ t, e ≠ ⟨.now, t⟩) (hpatch : e.isPatch = false) (h : Closed events) :
    Closed (e :: events) := by
  intro rest hrest
  have hbreaks : Breaks events rest :=
    hrest.imp_left fun hquiet => (List.forall_mem_cons.mp hquiet).2
  have hapart := h rest hbreaks
  constructor
  · rw [List.cons_append, waits_cons hnow, waits_cons hnow, hapart.waits_append]
  · rw [List.cons_append, updates_cons hpatch, updates_cons hpatch, hapart.updates_append]
  · rw [List.cons_append, examined_cons hpatch, examined_cons hpatch, hapart.examined_append,
      List.append_assoc]

theorem append (h : Closed events) (h' : Closed events') (hbreaks : Breaks events events') :
    Closed (events ++ events') := by
  intro rest hrest
  have hfirst := h events' hbreaks
  have hlast : Breaks events' rest :=
    hrest.imp_left fun hquiet => (List.forall_mem_append.mp hquiet).2
  have hwhole : Breaks events (events' ++ rest) := by
    rcases hbreaks with hquiet | hcalm
    · exact .inl hquiet
    · cases events' with
      | nil => exact hrest.imp_left fun hquiet => (List.forall_mem_append.mp hquiet).1
      | cons e events' => exact .inr hcalm
  have hboth := h (events' ++ rest) hwhole
  have hrest := h' rest hlast
  constructor
  · rw [List.append_assoc, hboth.waits_append, hrest.waits_append, hfirst.waits_append,
      List.append_assoc]
  · rw [List.append_assoc, hboth.updates_append, hrest.updates_append, hfirst.updates_append,
      List.append_assoc]
  · rw [List.append_assoc, hboth.examined_append, hrest.examined_append, hfirst.examined_append,
      List.append_assoc]

end Closed

/-- What a part of a pass counts, when it awaited the first of these nodes with success and then
`stuck` without. -/
structure Tally (spec : Spec) (events : List (Event Cluster)) (reached : List Node)
    (stuck : Option Node) : Prop where
  closed : Closed events
  selected : ∀ role, (samples events).count (.selected role) = (updates events).countP (marks role)
  written : (samples events).count (.selected .controlPlane)
    + (samples events).count (.selected .worker) = (selections events).length
  timedOut : ∀ role, (samples events).count (.timedOut role) =
    stuck.toList.countP (·.role == role)
  waited : ∀ role, (samples events).countP (Sample.isWait role) = reached.countP (·.role == role)
  arrived : arrivals spec events = reached.length
  unreported : ∀ result, (samples events).count (.reconciled result) = 0

namespace Tally

theorem nil : Tally spec [] [] none where
  closed := .nil
  selected _ := rfl
  written := rfl
  timedOut _ := rfl
  waited _ := rfl
  arrived := rfl
  unreported _ := rfl

/-- A call that has no part in a wait or an update, and is not counted. -/
theorem cons (hnow : ∀ t, e ≠ ⟨.now, t⟩) (hpatch : e.isPatch = false) (hsample : e.sample? = none)
    (h : Tally spec events reached stuck) : Tally spec (e :: events) reached stuck where
  closed := h.closed.cons hnow hpatch
  selected role := by rw [samples_cons hsample, updates_cons hpatch, h.selected]
  written := by
    have hmarked : e.marked? = none := Event.marked?_of_not_isPatch hpatch
    have hselections : selections (e :: events) = selections events :=
      List.filterMap_cons_none hmarked
    rw [samples_cons hsample, hselections, h.written]
  timedOut role := by rw [samples_cons hsample, h.timedOut]
  waited role := by rw [samples_cons hsample, h.waited]
  arrived := by rw [arrivals, waits_cons hnow, ← arrivals, h.arrived]
  unreported result := by rw [samples_cons hsample, h.unreported]

theorem append (h : Tally spec events reached none) (h' : Tally spec events' reached' stuck)
    (hbreaks : Breaks events events') :
    Tally spec (events ++ events') (reached ++ reached') stuck := by
  have hapart := h.closed events' hbreaks
  exact {
    closed := h.closed.append h'.closed hbreaks
    selected := fun role => by
      rw [samples_append, hapart.updates_append, List.count_append, List.countP_append, h.selected,
        h'.selected]
    written := by
      have hfirst := h.written
      have hlast := h'.written
      rw [samples_append, selections_append, List.length_append, List.count_append,
        List.count_append]
      omega
    timedOut := fun role => by
      rw [samples_append, List.count_append, h.timedOut, h'.timedOut]
      exact Nat.zero_add _
    waited := fun role => by
      rw [samples_append, List.countP_append, List.countP_append, h.waited, h'.waited]
    arrived := by
      have hfirst := h.arrived
      have hlast := h'.arrived
      rw [arrivals] at hfirst hlast ⊢
      rw [hapart.waits_append, List.countP_append, List.length_append, hfirst, hlast]
    unreported := fun result => by
      rw [samples_append, List.count_append, h.unreported, h'.unreported] }

end Tally

section Parts

/-- The update wrote. -/
def wrote : Except Failure Bool → Bool
  | .ok written => written
  | .error _ => false

/-- An attempt writes at most once, and all that it reads is read again after a conflict. -/
theorem written_of_attempt {plan : LabelPlan} {n : Nat} {r : Except Failure Bool}
    (h : Runs (LabelUpdate.attempt plan name n node).run events r) :
    (selections events).length = (wrote r).toNat ∧ events.any Event.isWritten = wrote r ∧
      ∀ rest, Calm rest → examined (events ++ rest) = examined rest := by
  induction n generalizing node events with
  | zero =>
    cases h
    exact ⟨rfl, rfl, fun _ _ => rfl⟩
  | succ n ih =>
    cases LabelUpdate.attempted_of_runs h with
    | needless => exact ⟨rfl, rfl, fun _ _ => rfl⟩
    | written => exact ⟨rfl, rfl, fun rest hrest => examinedFrom_of_calm hrest true⟩
    | refused => exact ⟨rfl, rfl, fun rest hrest => examinedFrom_of_calm hrest true⟩
    | unread => exact ⟨rfl, rfl, fun _ _ => rfl⟩
    | again hplan hrest =>
      obtain ⟨hselections, hwritten, hexamined⟩ := ih hrest
      exact ⟨hselections, hwritten, hexamined⟩

theorem closed_of_update {r : Except Failure Bool}
    (h : Runs (LabelUpdate.run node (selectPlan spec)).run events r) :
    Closed events ∧ updates events = callsOf events := by
  cases events with
  | nil => exact ⟨.nil, rfl⟩
  | cons first events =>
    obtain ⟨htouches, hpatch, -⟩ := touches_of_attempt h
    have hfirst : first.isPatch = true := hpatch first rfl
    have hnow : ∀ e ∈ first :: events, ∀ t, e ≠ ⟨.now, t⟩ := by
      rintro _ he t rfl
      exact Bool.false_ne_true (htouches _ he)
    have hupdates : ∀ rest, Calm rest →
        updates (first :: events ++ rest) = [first :: events] ++ updates rest := fun rest hrest =>
      updates_update hfirst (List.forall_mem_cons.mp htouches).2 hrest
    -- it begins with a write, so nothing but a calm rest breaks it off
    have hcalm : ∀ {rest}, Breaks (first :: events) rest → Calm rest := by
      rintro rest (hquiet | hrest)
      · rw [hquiet first List.mem_cons_self] at hfirst
        cases hfirst
      · exact hrest
    refine ⟨.of_adds (fun rest => (waits_append_of_quiet hnow).trans (List.nil_append _).symm)
      (fun rest hrest => hupdates rest (hcalm hrest))
      (fun rest hrest => ((written_of_attempt h).2.2 rest (hcalm hrest)).trans
        (List.nil_append _).symm), ?_⟩
    have hself := hupdates [] nofun
    rwa [List.append_nil] at hself

/-- The call that counts a mark. -/
def countsOf (node : Node) (r : Except Failure Bool) : List (Event Cluster) :=
  if wrote r then [⟨.count (.selected node.role), ()⟩] else []

theorem update_of_select {r : Except Failure Unit} (h : Runs (select spec node).run events r) :
    ∃ update result, Runs (LabelUpdate.run node (selectPlan spec)).run update result ∧
      events = update ++ countsOf node result := by
  rcases runs_attempt_iff.mp h with ⟨failure, hupdate, rfl⟩ | ⟨first, a, rest, hupdate, hrest, rfl⟩
  · exact ⟨events, _, hupdate, (List.append_nil events).symm⟩
  · refine ⟨first, _, hupdate, ?_⟩
    cases a with
    | false =>
      cases hrest
      rfl
    | true =>
      cases hrest with
      | ask answer hrest =>
        cases hrest
        rfl

/-- The one mark of an update is that of the record that it was begun with. -/
theorem marks_callsOf {r : Except Failure Bool}
    (h : Runs (LabelUpdate.run node (selectPlan spec)).run events r) :
    (callsOf events).countP (marks role) = if wrote r ∧ node.role = role then 1 else 0 := by
  have hwritten : events.any Event.isWritten = wrote r := (written_of_attempt h).2.1
  cases events with
  | nil =>
    have hnone : wrote r = false := hwritten.symm
    simp [callsOf, hnone]
  | cons first events =>
    have hplanned : first.plannedOn role = (node.role == role) := by
      cases LabelUpdate.attempted_of_runs h <;> rfl
    have hmarks : marks role (first :: events) = (wrote r && node.role == role) := by
      rw [marks, hwritten, List.head?_cons, Option.any_some, hplanned]
    simp [callsOf, hmarks]

/-- The count behind an update has no part in other calls. -/
theorem countsOf_apart (node : Node) (result : Except Failure Bool) :
    Closed (countsOf node result) ∧ Calm (countsOf node result) ∧
      updates (countsOf node result) = [] ∧ waits (countsOf node result) = [] ∧
      selections (countsOf node result) = [] := by
  unfold countsOf
  split
  · exact ⟨Closed.nil.cons (count_ne_now _) rfl, by simp [Calm, Event.touches], rfl, rfl, rfl⟩
  · exact ⟨.nil, by simp [Calm], rfl, rfl, rfl⟩

theorem tally_of_select {r : Except Failure Unit} (h : Runs (select spec node).run events r) :
    Tally spec events [] none := by
  obtain ⟨update, result, hupdate, rfl⟩ := update_of_select h
  obtain ⟨hclosed, hupdates⟩ := closed_of_update hupdate
  obtain ⟨hclosed', hcalm, hupdates', hwaits', hselections'⟩ := countsOf_apart node result
  have htouches := (touches_of_attempt hupdate).1
  have hnow : ∀ e ∈ update, ∀ t, e ≠ ⟨.now, t⟩ := by
    intro e he t heq
    subst heq
    exact Bool.false_ne_true (htouches _ he)
  -- an update counts nothing by itself
  have hsamples : samples (update ++ countsOf node result) = samples (countsOf node result) := by
    rw [samples_append, samples_eq_nil fun e he => Event.sample?_of_touches (htouches e he),
      List.nil_append]
  have hselections :
      (selections (update ++ countsOf node result)).length = (wrote result).toNat := by
    rw [selections_append, hselections', List.append_nil]
    exact (written_of_attempt hupdate).1
  have hwaits : waits (update ++ countsOf node result) = [] := by
    rw [waits_append_of_quiet hnow, hwaits']
  exact {
    closed := hclosed.append hclosed' (.inr hcalm)
    selected := fun role => by
      rw [hsamples, (hclosed _ (.inr hcalm)).updates_append, hupdates, hupdates', List.append_nil,
        marks_callsOf hupdate, countsOf]
      cases wrote result <;> simp [samples, Event.sample?, List.count_singleton]
    written := by
      rw [hsamples, hselections, countsOf]
      cases wrote result with
      | false => rfl
      | true => cases hrole : node.role <;> simp [samples, Event.sample?]
    timedOut := fun role => by
      rw [hsamples, countsOf]
      cases wrote result <;> simp [samples, Event.sample?]
    waited := fun role => by
      rw [hsamples, countsOf]
      cases wrote result <;> simp [samples, Event.sample?, Sample.isWait]
    arrived := by
      rw [arrivals, hwaits]
      rfl
    unreported := fun label => by
      rw [hsamples, countsOf]
      cases wrote result <;> simp [samples, Event.sample?] }

/-- The calls of a wait have no part in an update, nor in the reads outside of the waits. -/
def Passive (events : List (Event Cluster)) : Prop :=
  ∀ e ∈ events, e.isPatch = false ∧ e.read? = none

theorem Passive.examined_append (h : Passive events) :
    examined (events ++ rest) = examined rest := by
  have hread : events.filterMap Event.read? = [] :=
    List.filterMap_eq_nil_iff.mpr fun e he => (h e he).2
  rw [examined_append_of_quiet fun e he => (h e he).1, hread, List.nil_append]

/-- One wait, with the count at its end. -/
structure TalliedWait (spec : Spec) (node : Node) (events : List (Event Cluster))
    (reached : Bool) : Prop where
  tally : Tally spec events (if reached then [node] else []) (if reached then none else some node)
  passive : Passive events
  calm : ∀ rest, Calm (events ++ rest)

/-- What a wait of these calls adds, whatever it counts at its end. -/
theorem tally_of_waiting {waiting : List (Event Cluster)} {ws : List (List (Event Cluster))}
    {elapsed : Option Nat} (hpassive : Passive waiting) (hnone : ∀ e ∈ waiting, e.sample? = none)
    (hwaits : ∀ rest, waits (waiting ++ [⟨.count (ending node elapsed), ()⟩] ++ rest) =
      ws ++ waits rest)
    (harrivals : ws.countP (fun wait => wait.getLast?.any (Event.arrives spec)) =
      elapsed.isSome.toNat) :
    Tally spec (waiting ++ [⟨.count (ending node elapsed), ()⟩])
      (if elapsed.isSome then [node] else []) (if elapsed.isSome then none else some node) := by
  have hsamples : samples (waiting ++ [⟨.count (ending node elapsed), ()⟩]) =
      [ending node elapsed] := by
    rw [samples_append, samples_eq_nil hnone]
    rfl
  have hquiet : ∀ e ∈ waiting ++ [(⟨.count (ending node elapsed), ()⟩ : Event Cluster)],
      e.isPatch = false :=
    List.forall_mem_append.mpr ⟨fun e he => (hpassive e he).1, List.forall_mem_singleton.mpr rfl⟩
  have hupdates : updates (waiting ++ [⟨.count (ending node elapsed), ()⟩]) = [] := by
    have hself : updates (waiting ++ [⟨.count (ending node elapsed), ()⟩] ++ []) = updates [] :=
      updates_append_of_quiet hquiet
    rwa [List.append_nil] at hself
  have hself : waits (waiting ++ [⟨.count (ending node elapsed), ()⟩]) = ws := by
    simpa [waits] using hwaits []
  exact {
    closed := .of_quiet hquiet hwaits
    selected := fun role => by
      rw [hsamples, hupdates]
      cases elapsed <;> rfl
    written := by
      rw [hsamples, selections_eq_nil hquiet]
      cases elapsed <;> rfl
    timedOut := fun role => by
      rw [hsamples]
      cases elapsed <;> simp [ending, List.count_singleton, List.countP_singleton]
    waited := fun role => by
      rw [hsamples]
      cases elapsed <;> simp [ending, Sample.isWait]
    arrived := by
      rw [arrivals, hself, harrivals]
      cases elapsed <;> rfl
    unreported := fun label => by
      rw [hsamples]
      cases elapsed <;> rfl }

theorem tallied_of_await {reached : Bool} (h : Runs (await settings spec node) events reached) :
    TalliedWait spec node events reached := by
  obtain ⟨waiting, elapsed, hwait, rfl, rfl⟩ := waits_of_await h
  by_cases hinterval : settings.pollInterval = 0
  · -- without a schedule the wait is over at once
    rw [Wait.run, if_pos hinterval] at hwait
    cases hwait
    have hnone : ∀ e ∈ ([] : List (Event Cluster)), e.sample? = none := List.forall_mem_nil _
    have hpassive : Passive [] := List.forall_mem_nil _
    refine ⟨tally_of_waiting hpassive hnone (fun rest => (waits_cons (count_ne_now _)).trans
      (List.nil_append _).symm) rfl, ?_, ?_⟩
    · exact List.forall_mem_singleton.mpr ⟨rfl, rfl⟩
    · exact fun rest => by simp [Calm, Event.touches]
  · obtain ⟨t, polling, ended, rfl, rfl, hpoll⟩ := Wait.polls_of_run hinterval hwait
    obtain ⟨hcalls, e, he, hlast⟩ := timed_of_poll hpoll
    have htimed : ∀ e ∈ polling, e.isTimed = true := fun e he => (hcalls e he).1
    have hpassive : Passive (⟨.now, t⟩ :: polling) := by
      refine List.forall_mem_cons.mpr ⟨⟨rfl, rfl⟩, fun e he => ?_⟩
      exact ⟨(Event.quiet_of_isTimed (htimed e he)).1,
        Event.read?_of_not_touches (Event.not_touches_of_isTimed (htimed e he))⟩
    have hnone : ∀ e ∈ (⟨.now, t⟩ : Event Cluster) :: polling, e.sample? = none :=
      List.forall_mem_cons.mpr ⟨rfl, fun e he => Event.sample?_of_isTimed (htimed e he)⟩
    have harrives : polling.getLast?.any (Event.arrives spec) = ended.isSome := by
      rw [Option.mem_def.mp he, Option.any_some]
      cases ended with
      | some => exact hlast
      | none => exact Event.not_arrives_of_expires hlast
    have hwaits : ∀ rest, waits (⟨.now, t⟩ :: polling ++
        [⟨.count (ending node (ended.map (· - t))), ()⟩] ++ rest) = [polling] ++ waits rest := by
      intro rest
      rw [List.append_assoc]
      exact waits_wait htimed rfl (count_ne_now _)
    refine ⟨tally_of_waiting hpassive hnone hwaits ?_, ?_, fun rest => ?_⟩
    · rw [Option.isSome_map, List.countP_singleton, harrives]
      cases ended <;> rfl
    · exact List.forall_mem_append.mpr ⟨hpassive, List.forall_mem_singleton.mpr ⟨rfl, rfl⟩⟩
    · simp [Calm, Event.touches]

end Parts

end Pass

end NodeRollout
