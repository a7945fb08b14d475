import NodeRollout.Proofs.AgentTurns

/-! A version is applied once at an agent that keeps its stamps. The call that applies it leaves the
stamp before its turn ends, and every later one finds the stamp and does nothing. -/
namespace NodeRollout

open Program

variable {ι σ : Type}

/-- An upgrade command of kubeadm that succeeded. -/
def Program.Event.isApply : Event Host → Bool
  | ⟨.run command, .ok _⟩ => command.program == "kubeadm" && command.args.head? == some "upgrade"
  | _ => false

/-- How often an upgrade was applied. -/
def applies (log : List (Event Host)) : Nat := log.countP Event.isApply

/-- The stamp of a version, on a host where the operations on stamps succeed and nothing removes
one. -/
structure KeepsStamp (E : Setting Host σ) (dir version : String) (stamped : σ → Prop) : Prop where
  reads : ∀ {s answer t}, E.Serves s (.fileExists (Stamp.path dir version)) answer t →
    answer = Except.ok true ∧ stamped s ∨ answer = Except.ok false ∧ ¬ stamped s
  makes : ∀ {s answer t}, E.Serves s (.makeDirectories dir) answer t → answer = Except.ok ()
  writes : ∀ {s answer t}, E.Serves s (.writeTime (Stamp.path dir version)) answer t →
    answer = Except.ok () ∧ stamped t
  calls : ∀ {s c answer t}, E.Serves s c answer t → stamped s → stamped t
  others : ∀ {s t}, E.Others s t → stamped s → stamped t

namespace Agent

variable {E : Setting Host σ} {dir version : String} {stamped : σ → Prop}
  {s t : σ × List (Event Host)}

/-- What others and calls that apply nothing keep. -/
structure Lasting (E : Setting Host σ) (K : σ × List (Event Host) → Prop) : Prop where
  others : ∀ {s t}, E.recorded.Others s t → K s → K t
  calls : ∀ {s c answer t}, Event.isApply ⟨c, answer⟩ = false → E.recorded.Serves s c answer t →
    K s → K t

/-- At most one upgrade was applied, and none while `early` holds. -/
def Once (early : Prop) (log : List (Event Host)) : Prop :=
  applies log ≤ 1 ∧ (early → applies log = 0)

theorem applies_concat (log : List (Event Host)) (e : Event Host) :
    applies (log ++ [e]) = applies log + if e.isApply then 1 else 0 := by
  rw [applies, applies, List.countP_append, List.countP_singleton]

/-- Before the stamp is looked for. -/
def Before (stamped : σ → Prop) (early : Prop) (s : σ × List (Event Host)) : Prop :=
  applies s.2 = 0 ∧ (early → stamped s.1)

/-- After the stamp was found missing. -/
def Missing (early : Prop) (count : Nat) (s : σ × List (Event Host)) : Prop :=
  applies s.2 ≤ count ∧ ¬ early

theorem lasting_before (k : KeepsStamp E dir version stamped) (early : Prop) :
    Lasting E (Before stamped early) where
  others ho h := ⟨ho.2 ▸ h.1, fun hearly => k.others ho.1 (h.2 hearly)⟩
  calls hquiet hs h := by
    refine ⟨?_, fun hearly => k.calls hs.1 (h.2 hearly)⟩
    rw [hs.2, applies_concat, h.1, hquiet]
    rfl

theorem lasting_missing (early : Prop) (count : Nat) :
    Lasting E (Missing (σ := σ) early count) where
  others ho h := ⟨ho.2 ▸ h.1, h.2⟩
  calls hquiet hs h := by
    refine ⟨?_, h.2⟩
    rw [hs.2, applies_concat, hquiet]
    exact h.1

/-- What a call leaves when its turn ends: a stamp, if it applied an upgrade. -/
def Left (stamped : σ → Prop) (early : Prop) (s : σ × List (Event Host)) : Prop :=
  Once early s.2 ∧ (0 < applies s.2 → stamped s.1)

theorem Before.left {early : Prop} (h : Before stamped early s) : Left stamped early s := by
  have hnone : applies s.2 = 0 := h.1
  exact ⟨⟨by omega, fun _ => hnone⟩, fun hpos => by omega⟩

theorem Missing.once {early : Prop} {count : Nat} (h : Missing early count s) (hcount : count ≤ 1) :
    Once early s.2 :=
  ⟨Nat.le_trans h.1 hcount, fun hearly => absurd hearly h.2⟩

theorem Missing.left {early : Prop} (h : Missing early 0 s) : Left stamped early s := by
  have hnone : applies s.2 ≤ 0 := h.1
  exact ⟨h.once (Nat.zero_le 1), fun hpos => by omega⟩

section Quiet

variable {α β : Type} {early : Prop} {K : σ × List (Event Host) → Prop}
  {R : σ × List (Event Host) → Except Failure β → Prop}

/-- A call to the host that applies nothing, and what follows it. -/
theorem assures_ask (hK : Lasting E K) (honce : ∀ {s}, K s → Once early s.2)
    (hend : ∀ {s failure}, K s → R s (.error failure)) {c : HostCall}
    {f : c.Answer → Except Failure α} {g : α → HostProcedure β}
    (hquiet : ∀ answer, Event.isApply ⟨c, answer⟩ = false)
    (hnext : ∀ {t u : σ × List (Event Host)} {answer : c.Answer} {a : α},
      E.Serves t.1 c answer u.1 → K t → K u → f answer = .ok a →
      Assures E.recorded (fun m => Once early m.after.2) (g a).run R u) (hs : K s) :
    Assures E.recorded (fun m => Once early m.after.2)
      ((ExceptT.mk do return f (← Program.call (I := Host) c)) >>= g).run R s := by
  refine Assures.attempt (Assures.call fun t ht answer u hu => ?_)
  have hKt : K t := hK.others ht hs
  have hKu : K u := hK.calls (hquiet answer) hu hKt
  refine ⟨honce hKu, Assures.done fun v hv => ?_⟩
  cases hf : f answer with
  | error failure => exact fun w hw => hend (hK.others hw (hK.others hv hKu))
  | ok a => exact (hnext hu.1 hKt hKu hf).others hv

theorem assures_command (hK : Lasting E K) (honce : ∀ {s}, K s → Once early s.2)
    (hend : ∀ {s failure}, K s → R s (.error failure)) {command : Command}
    {g : String → HostProcedure β}
    (hquiet : (command.program == "kubeadm" && command.args.head? == some "upgrade") = false)
    (hnext : ∀ {u : σ × List (Event Host)} {output : String}, K u →
      Assures E.recorded (fun m => Once early m.after.2) (g output).run R u) (hs : K s) :
    Assures E.recorded (fun m => Once early m.after.2) (Host.run command >>= g).run R s := by
  have hquiet' : ∀ answer : Except Failure String,
      Event.isApply ⟨.run command, answer⟩ = false := by
    intro answer
    cases answer with
    | ok output => exact hquiet
    | error failure => rfl
  exact assures_ask (c := .run command) (f := fun answer : Except Failure String => answer) hK honce
    hend hquiet' (fun _ _ hu _ => hnext hu) hs

end Quiet

/-- The end of a call that applied the version, or that found it applied: the stamp is written. -/
theorem assures_stamp (k : KeepsStamp E dir version stamped) {early : Prop}
    (hs : Missing early 1 s) :
    Assures E.recorded (fun m => Once early m.after.2)
      (do
        Host.makeDirectories dir
        Host.writeTime (Stamp.path dir version) : HostProcedure Unit).run
      (fun s _ => Left stamped early s) s := by
  have hmissing : Lasting E (Missing (σ := σ) early 1) := lasting_missing early 1
  refine Assures.attempt (Assures.call fun t ht answer u hu => ?_)
  have hu' : Missing early 1 u := hmissing.calls rfl hu (hmissing.others ht hs)
  refine ⟨hu'.once (Nat.le_refl 1), Assures.done fun v hv => ?_⟩
  obtain rfl := k.makes hu.1
  refine Assures.call fun w hw answer x hx => ?_
  have hw' : Missing early 1 w := hmissing.others hw (hmissing.others hv hu')
  have hx' : Missing early 1 x := hmissing.calls rfl hx hw'
  obtain ⟨-, hstamped⟩ := k.writes hx.1
  refine ⟨hx'.once (Nat.le_refl 1), Assures.done fun y hy => ?_⟩
  have hy' : Missing early 1 y := hmissing.others hy hx'
  exact ⟨hy'.once (Nat.le_refl 1), fun _ => k.others hy.1 hstamped⟩

theorem assures_upgradeKubernetes (k : KeepsStamp E dir version stamped) {early : Prop}
    {request : PushRequest} (hversion : request.kubeVersion = version)
    (hs : Before stamped early s) :
    Assures E.recorded (fun m => Once early m.after.2) (upgradeKubernetes dir request).run
      (fun s _ => Left stamped early s) s := by
  subst hversion
  have hbefore := lasting_before k early
  have hmissing : Lasting E (Missing (σ := σ) early 0) := lasting_missing early 0
  have honce : ∀ {s : σ × List (Event Host)}, Missing early 0 s → Once early s.2 :=
    fun hs => hs.once (Nat.zero_le 1)
  unfold upgradeKubernetes
  refine assures_ask hbefore (fun hs => hs.left.1) Before.left (fun _ => rfl) ?_ hs
  intro t u answer found hserves ht hu hf
  rcases k.reads hserves with ⟨rfl, -⟩ | ⟨rfl, hnot⟩
  · cases hf
    exact Assures.done fun v hv => (hbefore.others hv hu).left
  · cases hf
    -- the stamp is missing here, so it was at the start
    have hstart : Missing early 0 u := ⟨Nat.le_of_eq hu.1, fun hearly => hnot (ht.2 hearly)⟩
    refine assures_command hmissing honce Missing.left (by decide) (fun {v output} hv => ?_) hstart
    dsimp only
    split
    · refine assures_command hmissing honce Missing.left (by decide) (fun {w output} hw => ?_) hv
      refine Assures.attempt (Assures.ask fun x hx answer y hy => ?_)
      have hx' : Missing early 0 x := hmissing.others hx hw
      cases answer with
      | error failure =>
        have hy' : Missing early 0 y := hmissing.calls rfl hy hx'
        refine ⟨honce hy', Assures.done fun z hz => fun a ha => ?_⟩
        exact (hmissing.others ha (hmissing.others hz hy')).left
      | ok output =>
        -- the only call that may apply the version
        have hy' : Missing early 1 y := by
          refine ⟨?_, hx'.2⟩
          rw [hy.2, applies_concat]
          have hnone : applies x.2 ≤ 0 := hx'.1
          split <;> omega
        exact ⟨hy'.once (Nat.le_refl 1), Assures.done fun z hz => (assures_stamp k hy').others hz⟩
    · exact assures_stamp k ⟨Nat.le_succ_of_le hv.1, hv.2⟩

theorem assures_upgradeOs (k : KeepsStamp E dir version stamped) {early : Prop}
    (request : PushRequest) (hs : Before stamped early s) :
    Assures E.recorded (fun m => Once early m.after.2) (upgradeOs request).run
      (fun s _ => Before stamped early s) s := by
  have hbefore := lasting_before k early
  have honce : ∀ {s}, Before stamped early s → Once early s.2 := fun hs => hs.left.1
  unfold upgradeOs
  refine assures_ask hbefore honce id (fun _ => rfl) ?_ hs
  intro t u answer current _ _ hu _
  split
  · exact Assures.done fun v hv => hbefore.others hv hu
  · split
    · exact Assures.done fun v hv => hbefore.others hv hu
    · have hrebase : ((Command.rebase request.osImageUrl).program == "kubeadm" &&
          (Command.rebase request.osImageUrl).args.head? == some "upgrade") = false := by
        simp [Command.rebase]
      refine assures_command hbefore honce id hrebase (fun {v output} hv => ?_) hu
      refine assures_command hbefore honce id (by decide) (fun {w output} hw => ?_) hv
      exact Assures.done fun x hx => hbefore.others hx hw

theorem assures_upgrade (k : KeepsStamp E dir version stamped) {early : Prop}
    {request : PushRequest} (hversion : request.kubeVersion = version)
    (hs : Before stamped early s) :
    Assures E.recorded (fun m => Once early m.after.2) (upgrade dir request).run
      (fun s _ => Left stamped early s) s := by
  have hbefore := lasting_before k early
  have hkube : ∀ {t}, Before stamped early t → Assures E.recorded (fun m => Once early m.after.2)
      (if !request.kubeVersion.isEmpty then upgradeKubernetes dir request else pure ()).run
      (fun s _ => Left stamped early s) t := by
    intro t ht
    split
    · exact assures_upgradeKubernetes k hversion ht
    · exact Assures.done fun u hu => (hbefore.others hu ht).left
  unfold upgrade
  dsimp only
  split
  · refine Assures.attempt ((assures_upgradeOs k request hs).mono fun t r ht => ?_)
    cases r with
    | error failure => exact fun u hu => (hbefore.others hu ht).left
    | ok reboots =>
      cases reboots with
      | true => exact Assures.done fun u hu => (hbefore.others hu ht).left
      | false => exact hkube ht
  · exact hkube hs

section Calls

variable {request : PushRequest} {a b : σ} {ms : List (Moment Host σ)}
  {p : Program Host (Except Failure Unit)}

theorem before_start (stamped : σ → Prop) (a : σ) : Before stamped (stamped a) (a, []) := ⟨rfl, id⟩

/-- A call applies its version at most once, at any point of it, and not when it is stamped. -/
theorem once_of_course (k : KeepsStamp E dir version stamped)
    (hversion : request.kubeVersion = version)
    (h : Course E a (upgrade dir request).run ms b p) : Once (stamped a) (ms.map Moment.event) := by
  -- the bound holds after every call, so also where the course stops
  obtain ⟨ms', hrecorded⟩ := h.recorded []
  obtain ⟨-, hcalls⟩ := (assures_upgrade k hversion (before_start stamped a)).course hrecorded
  have hstart : Once (stamped a) [] := ⟨Nat.zero_le 1, fun _ => rfl⟩
  exact hrecorded.preserves (K := fun s => Once (stamped a) s.2) (fun ho hs => ho.2 ▸ hs)
    (fun m hm _ => hcalls m hm) hstart

/-- A call that applied its version leaves the stamp. -/
theorem stamped_of_course (k : KeepsStamp E dir version stamped)
    (hversion : request.kubeVersion = version) {result : Except Failure Unit}
    (h : Course E a (upgrade dir request).run ms b (.done result))
    (hpos : 0 < applies (ms.map Moment.event)) : stamped b := by
  obtain ⟨ms', hrecorded⟩ := h.recorded []
  have hleft := (assures_upgrade k hversion (before_start stamped a)).result hrecorded
  exact hleft.2 hpos

theorem stamped_course (k : KeepsStamp E dir version stamped)
    {q : Program Host (Except Failure Unit)} (h : Course E a p ms b q) (ha : stamped a) :
    stamped b :=
  h.preserves k.others (fun m hm hbefore => k.calls (h.serves m hm) hbefore) ha

end Calls

variable {requests : ι → PushRequest} {served : List (ι × Except Failure Unit)}
  {moments : List (ι × Moment Host σ)}

/-- How often calls for this version applied it. -/
def appliesOf (requests : ι → PushRequest) (version : String) (moments : List (ι × Moment Host σ)) :
    Nat :=
  moments.countP fun m => (requests m.1).kubeVersion == version && m.2.event.isApply

theorem appliesOf_append (requests : ι → PushRequest) (version : String)
    (moments : List (ι × Moment Host σ)) (i : ι) (ms : List (Moment Host σ)) :
    appliesOf requests version (moments ++ ms.map (i, ·)) = appliesOf requests version moments +
      if (requests i).kubeVersion = version then applies (ms.map Moment.event) else 0 := by
  rw [appliesOf, appliesOf, List.countP_append, List.countP_map, applies, List.countP_map]
  split
  next hversion => simp [Function.comp_def, hversion]
  next hother => simp [Function.comp_def, hother]

/-- Calls one after the other apply a version at most once, and leave its stamp. -/
theorem Serial.appliesOf_le_one (k : KeepsStamp E dir version stamped) {a b : σ}
    (h : Serial E dir requests a served moments b) : appliesOf requests version moments ≤ 1 ∧
      (0 < appliesOf requests version moments → stamped b) := by
  induction h with
  | start => exact ⟨Nat.zero_le 1, fun hpos => absurd hpos (Nat.lt_irrefl 0)⟩
  | others _ change ih => exact ⟨ih.1, fun hpos => k.others change (ih.2 hpos)⟩
  | @next served moments t u i ms result _ course ih =>
    rw [appliesOf_append]
    split
    next hversion =>
      obtain ⟨hle, hstamped⟩ := once_of_course k hversion course
      rcases Nat.eq_zero_or_pos (appliesOf requests version moments) with hnone | hpos
      · rw [hnone, Nat.zero_add]
        exact ⟨hle, stamped_of_course k hversion course⟩
      · -- the version was applied before, so this call finds its stamp
        rw [hstamped (ih.2 hpos), Nat.add_zero]
        exact ⟨ih.1, fun hpos => stamped_course k course (ih.2 hpos)⟩
    next =>
      rw [Nat.add_zero]
      exact ⟨ih.1, fun hpos => stamped_course k course (ih.2 hpos)⟩

theorem InTurn.appliesOf_le_one (k : KeepsStamp E dir version stamped) {a : σ}
    {acts : List (Act ι σ)} {d : Desk ι σ} (h : InTurn E dir requests a acts d served) :
    appliesOf requests version (hostCalls acts) ≤ 1 := by
  cases h with
  | free _ _ _ serial _ => exact (serial.appliesOf_le_one k).1
  | @taken i moments t ms p _ _ _ _ serial course asked _ _ =>
    obtain ⟨hle, hstamped⟩ := serial.appliesOf_le_one k
    -- the call under way counts like one that is served
    rw [asked, appliesOf_append]
    split
    next hversion =>
      obtain ⟨hle', hnone⟩ := once_of_course k hversion course
      rcases Nat.eq_zero_or_pos (appliesOf requests version moments) with hzero | hpos
      · rw [hzero, Nat.zero_add]
        exact hle'
      · rw [hnone (hstamped hpos), Nat.add_zero]
        exact hle
    next => exact hle

/-- What any number of calls at one agent come to, at any point of any run of them. -/
structure Serialized (E : Setting Host σ) (dir : String) (requests : ι → PushRequest)
    (start : Desk ι σ) (acts : List (Act ι σ)) (d : Desk ι σ) : Prop where
  /-- No call asks the host between two questions of another one. -/
  grouped : ∀ i j, [i, j, i].Sublist ((hostCalls acts).map Prod.fst) → j = i
  /-- The host was asked what one call after the other asks it, in the order of their turns, and the
  calls that ended have the results of that. -/
  serial : ∃ served, InTurn E dir requests start.host acts d served ∧
    ∀ i result, d.calls i = .done result ↔ (i, result) ∈ served
  /-- A version whose stamp is kept was applied at most once. -/
  once : ∀ version stamped, KeepsStamp E dir version stamped →
    appliesOf requests version (hostCalls acts) ≤ 1

/-- The calls at an agent run in turn, whatever they request and however they are interleaved. -/
theorem run_serialized [DecidableEq ι] {start d : Desk ι σ} {acts : List (Act ι σ)}
    (hturn : start.turn = none) (hcalls : ∀ i, start.calls i = handle dir (requests i))
    (hrun : Desk.Run E start acts d) : Serialized E dir requests start acts d := by
  obtain ⟨served, hserved⟩ := InTurn.run hturn hcalls hrun
  exact {
    grouped := hserved.grouped
    serial := ⟨served, hserved, fun i result => hserved.done_iff result⟩
    once := fun version stamped k => hserved.appliesOf_le_one k }

section Sample

/-- A host that has one stamp or not, and whose commands all print an old version. -/
def stampHost : Setting Host Bool where
  Serves stamped c answer stamped' :=
    match c, answer with
    | .fileExists _, answer => answer = Except.ok stamped ∧ stamped' = stamped
    | .run _, answer => answer = Except.ok "v1.28.0" ∧ stamped' = stamped
    | .makeDirectories _, answer => answer = Except.ok () ∧ stamped' = stamped
    | .writeTime _, answer => answer = Except.ok () ∧ stamped' = true
    | .osRelease, _ => stamped' = stamped
  Others := Eq
  idle _ := rfl
  chain := Eq.trans

theorem keepsStamp_stampHost (dir version : String) :
    KeepsStamp stampHost dir version (· = true) where
  reads := by
    rintro s answer t ⟨rfl, -⟩
    cases s with
    | false => exact .inr ⟨rfl, Bool.false_ne_true⟩
    | true => exact .inl ⟨rfl, rfl⟩
  makes hs := hs.1
  writes hs := hs
  calls := by
    rintro s c answer t hs rfl
    cases c with
    | osRelease => exact hs
    | fileExists => exact hs.2
    | run => exact hs.2
    | makeDirectories => exact hs.2
    | writeTime => exact hs.2
  others ho hs := ho ▸ hs

def retriedRequest : PushRequest := ⟨"v1.29.1", "", "", true⟩

/-- A request and its retry, neither of which has begun. -/
def retriedDesk : Desk Bool Bool := ⟨false, none, fun _ => handle "/run" retriedRequest⟩

theorem run_retriedDesk : ∃ acts d, Desk.Run stampHost retriedDesk acts d ∧
    turns acts = [false, true] ∧
    appliesOf (fun _ => retriedRequest) "v1.29.1" (hostCalls acts) = 1 ∧
    d.calls true = .done (.ok ()) := by
  -- the first call applies the version and leaves its stamp, the second one finds it
  have hfirst := Desk.Run.start (E := stampHost) (d := retriedDesk)
    |>.step (.take (i := false) rfl rfl)
    |>.step (.host (i := false) rfl ⟨rfl, rfl⟩)
    |>.step (.host (i := false) rfl ⟨rfl, rfl⟩)
    |>.step (.host (i := false) rfl ⟨rfl, rfl⟩)
    |>.step (.host (i := false) rfl ⟨rfl, rfl⟩)
    |>.step (.host (i := false) rfl ⟨rfl, rfl⟩)
    |>.step (.host (i := false) rfl ⟨rfl, rfl⟩)
    |>.step (.leave (i := false) rfl)
  have hsecond := hfirst
    |>.step (.take (i := true) rfl rfl)
    |>.step (.host (i := true) rfl ⟨rfl, rfl⟩)
    |>.step (.leave (i := true) rfl)
  exact ⟨_, _, hsecond, rfl, rfl, rfl⟩

/-- A retry runs after the first request and applies nothing. -/
theorem run_serialized_retry : ∃ acts d, Desk.Run stampHost retriedDesk acts d ∧
    turns acts = [false, true] ∧
    appliesOf (fun _ => retriedRequest) "v1.29.1" (hostCalls acts) = 1 ∧
    Serialized stampHost "/run" (fun _ => retriedRequest) retriedDesk acts d ∧
    appliesOf (fun _ => retriedRequest) "v1.29.1" (hostCalls acts) ≤ 1 := by
  obtain ⟨acts, d, hrun, hturns, happlies, -⟩ := run_retriedDesk
  have hserialized : Serialized stampHost "/run" (fun _ => retriedRequest) retriedDesk acts d :=
    run_serialized rfl (fun _ => rfl) hrun
  exact ⟨acts, d, hrun, hturns, happlies, hserialized,
    hserialized.once "v1.29.1" _ (keepsStamp_stampHost "/run" "v1.29.1")⟩

end Sample

end Agent

end NodeRollout
