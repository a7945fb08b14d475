import Mathlib.Data.Set.Insert
import NodeRollout.Agent.Upgrade
import NodeRollout.Proofs.StampPaths
import NodeRollout.Proofs.Transcript

/-! What the stamps of an agent tell. On a host where nothing else touches them, a version is
stamped exactly when a request for it saw the version installed or applied it. A request that went
through is therefore never carried out twice: its repetition looks at the OS and at the stamp, and
is done. -/
namespace NodeRollout

open Program

variable {σ : Type}

namespace Stamp

/-- A version that stands in the name of its stamp as it is. -/
def Plain (version : String) : Prop := '/' ∉ version.toList ∧ '\\' ∉ version.toList

theorem map_replace {cs : List Char} (hslash : '/' ∉ cs) (hback : '\\' ∉ cs) :
    cs.map replace = cs := by
  have hkept : ∀ c ∈ cs, replace c = c := by
    intro c hc
    have hother : ¬ (c = '/' ∨ c = '\\') := by
      rintro (rfl | rfl)
      · exact hslash hc
      · exact hback hc
    exact if_neg hother
  calc cs.map replace
    _ = cs.map id := List.map_congr_left hkept
    _ = cs := List.map_id cs

/-- Versions without separators have stamps of their own. -/
theorem path_inj {dir v w : String} (hv : Plain v) (hw : Plain w) :
    path dir v = path dir w ↔ v = w := by
  rw [path_eq_iff, map_replace hv.1 hv.2, map_replace hw.1 hw.2, String.toList_inj]

end Stamp

/-- A host whose stamps are the files `stamps`: the operations on them succeed, and nothing but the
writing of a stamp changes them. -/
structure OwnsStamps (E : Setting Host σ) (dir : String) (stamps : σ → Set String) : Prop where
  reads : ∀ {s version answer t}, E.Serves s (.fileExists (Stamp.path dir version)) answer t →
    answer = Except.ok true ∧ Stamp.path dir version ∈ stamps s ∨
      answer = Except.ok false ∧ Stamp.path dir version ∉ stamps s
  makes : ∀ {s answer t}, E.Serves s (.makeDirectories dir) answer t → answer = Except.ok ()
  writes : ∀ {s version answer t}, E.Serves s (.writeTime (Stamp.path dir version)) answer t →
    answer = Except.ok () ∧ stamps t = insert (Stamp.path dir version) (stamps s)
  calls : ∀ {s c answer t}, (∀ path, c ≠ .writeTime path) → E.Serves s c answer t →
    stamps t = stamps s
  others : ∀ {s t}, E.Others s t → stamps t = stamps s

theorem OwnsStamps.limited {E : Setting Host σ} {dir : String} {stamps : σ → Set String}
    (k : OwnsStamps E dir stamps) (ok : Event Host → Prop) :
    OwnsStamps (E.limited ok) dir stamps where
  reads hs := k.reads hs.1
  makes hs := k.makes hs.1
  writes hs := k.writes hs.1
  calls hc hs := k.calls hc hs.1
  others := k.others

namespace Program.Event

/-- kubeadm printed the requested version, or its upgrade command succeeded. -/
def vouches (request : PushRequest) : Event Host → Bool
  | ⟨.run command, .ok output⟩ =>
    (command == .kubeadmVersion && Text.trim output == request.kubeVersion) ||
      command == .kubeadmUpgrade request.kubeVersion request.controlPlane
  | _ => false

/-- What a reading of the os-release file gave. -/
def osRead? : Event Host → Option (Except IoCause (List UInt8))
  | ⟨.osRelease, answer⟩ => some answer
  | _ => none

def command? : Event Host → Option Command
  | ⟨.run command, _⟩ => some command
  | _ => none

/-- A question that changes nothing on the host. -/
def looks : Event Host → Bool
  | ⟨.osRelease, _⟩ | ⟨.fileExists _, _⟩ => true
  | _ => false

end Program.Event

namespace Agent

/-- The request names no OS, or the one that the host was seen to run. -/
def PassedOs (request : PushRequest) (log : List (Event Host)) : Prop :=
  request.osVersion = "" ∨ ∃ answer ∈ log.filterMap Event.osRead?,
    OsRelease.ofFile answer = .ok request.osVersion

/-- The request got past its OS step and saw its version installed, or applied it. -/
def Vouched (request : PushRequest) (log : List (Event Host)) : Prop :=
  PassedOs request log ∧ ∃ e ∈ log, e.vouches request = true

def Rebooted (log : List (Event Host)) : Prop := .reboot ∈ log.filterMap Event.command?

/-- A request that was carried out, with what it asked its host. -/
structure Visit where
  request : PushRequest
  log : List (Event Host)
  result : Except Failure Unit

/-- Requests that one agent carries out one after the other. Others may change its host at any time,
as far as the setting lets them. -/
inductive Visits (E : Setting Host σ) (dir : String) (s : σ) : List Visit → σ → Prop where
  | start : Visits E dir s [] s
  | others {visits : List Visit} {t u : σ} (before : Visits E dir s visits t)
      (change : E.Others t u) : Visits E dir s visits u
  | next {visits : List Visit} {t u : σ} {request : PushRequest} {ms : List (Moment Host σ)}
      {result : Except Failure Unit} (before : Visits E dir s visits t)
      (course : Course E t (upgrade dir request).run ms u (.done result)) :
      Visits E dir s (visits ++ [⟨request, ms.map Moment.event, result⟩]) u

/-- What a visit makes of the stamps. -/
structure Visit.Leaves (dir : String) (visit : Visit) (before after : Set String) : Prop where
  vouched : Vouched visit.request visit.log →
    after = insert (Stamp.path dir visit.request.kubeVersion) before
  unvouched : ¬ Vouched visit.request visit.log → after = before
  /-- Without a reboot, a visit ends well only past its OS step and with its version stamped. -/
  settled : visit.result = .ok () → ¬ Rebooted visit.log → PassedOs visit.request visit.log ∧
    (visit.request.kubeVersion = "" ∨ Stamp.path dir visit.request.kubeVersion ∈ after)

theorem Visit.Leaves.subset {dir : String} {visit : Visit} {before after : Set String}
    (h : visit.Leaves dir before after) : before ⊆ after := by
  by_cases hvouched : Vouched visit.request visit.log
  · rw [h.vouched hvouched]
    exact Set.subset_insert _ _
  · rw [h.unvouched hvouched]

section Rules

variable {E : Setting Host σ} {G : Moment Host σ → Prop} {α β : Type} {s : σ}
  {R : σ → Except Failure β → Prop}

/-- A question to the host whose refusal ends the procedure. -/
theorem assures_host {c : HostCall} {f : c.Answer → Except Failure α} {g : α → HostProcedure β}
    (h : ∀ t, E.Others s t → ∀ answer u, E.Serves t c answer u →
      G ⟨t, ⟨c, answer⟩, u⟩ ∧ (∀ a, f answer = .ok a → Assures E G (g a).run R u) ∧
        ∀ failure, f answer = .error failure → ∀ v, E.Others u v → R v (.error failure)) :
    Assures E G ((ExceptT.mk do return f (← Program.call (I := Host) c)) >>= g).run R s := by
  apply Assures.attempt
  apply Assures.call
  intro t ht answer u hu
  obtain ⟨hG, hok, hfailed⟩ := h t ht answer u hu
  refine ⟨hG, Assures.done fun v hv => ?_⟩
  cases hf : f answer with
  | ok a => exact (hok a hf).others hv
  | error failure => exact fun w hw => hfailed failure hf w (E.chain hv hw)

end Rules

section Visit

variable {E : Setting Host σ} {dir : String} {stamps : σ → Set String} {request : PushRequest}
  {S : Set String} {s t : σ × List (Event Host)} {c : HostCall} {answer : c.Answer}

theorem PassedOs.mono {log log' : List (Event Host)} (h : PassedOs request log)
    (hsub : log ⊆ log') : PassedOs request log' := by
  rcases h with hnone | ⟨answer, hmem, hname⟩
  · exact .inl hnone
  · obtain ⟨e, he, hread⟩ := List.mem_filterMap.mp hmem
    exact .inr ⟨answer, List.mem_filterMap.mpr ⟨e, hsub he, hread⟩, hname⟩

theorem Vouched.mono {log log' : List (Event Host)} (h : Vouched request log)
    (hsub : log ⊆ log') : Vouched request log' := by
  obtain ⟨hpassed, e, he, hvouches⟩ := h
  exact ⟨hpassed.mono hsub, e, hsub he, hvouches⟩

theorem mem_of_serves (hs : E.recorded.Serves s c answer t) : ⟨c, answer⟩ ∈ t.2 := by
  rw [hs.2]
  exact List.mem_append_right _ (List.mem_singleton_self _)

theorem subset_of_serves (hs : E.recorded.Serves s c answer t) : s.2 ⊆ t.2 := by
  rw [hs.2]
  exact List.subset_append_left _ _

/-- Nothing asked so far vouches for the version, and the stamps are those from the start. -/
structure Unvouched (stamps : σ → Set String) (request : PushRequest) (S : Set String)
    (s : σ × List (Event Host)) : Prop where
  stamps_eq : stamps s.1 = S
  silent : ∀ e ∈ s.2, e.vouches request = false

/-- Something asked so far vouches for the version, and its stamp is still to be written. -/
structure Unwritten (stamps : σ → Set String) (request : PushRequest) (S : Set String)
    (s : σ × List (Event Host)) : Prop where
  stamps_eq : stamps s.1 = S
  vouched : Vouched request s.2

/-- What the request leaves when it ends with this result. -/
def Leaving (stamps : σ → Set String) (dir : String) (request : PushRequest) (S : Set String)
    (s : σ × List (Event Host)) (result : Except Failure Unit) : Prop :=
  Visit.Leaves dir ⟨request, s.2, result⟩ S (stamps s.1)

theorem Unvouched.others (k : OwnsStamps E dir stamps) (ho : E.recorded.Others s t)
    (h : Unvouched stamps request S s) : Unvouched stamps request S t where
  stamps_eq := (k.others ho.1).trans h.stamps_eq
  silent := ho.2 ▸ h.silent

theorem Unvouched.call (k : OwnsStamps E dir stamps) (hc : ∀ path, c ≠ .writeTime path)
    (hsilent : Event.vouches request ⟨c, answer⟩ = false) (hs : E.recorded.Serves s c answer t)
    (h : Unvouched stamps request S s) : Unvouched stamps request S t where
  stamps_eq := (k.calls hc hs.1).trans h.stamps_eq
  silent := by
    intro e he
    rw [hs.2, List.mem_append, List.mem_singleton] at he
    rcases he with he | rfl
    · exact h.silent e he
    · exact hsilent

theorem Unvouched.leaves {result : Except Failure Unit} (h : Unvouched stamps request S s)
    (hsettled : result = .ok () → ¬ Rebooted s.2 → PassedOs request s.2 ∧
      (request.kubeVersion = "" ∨ Stamp.path dir request.kubeVersion ∈ S)) :
    Leaving stamps dir request S s result where
  vouched := by
    rintro ⟨-, e, he, hvouches⟩
    rw [h.silent e he] at hvouches
    cases hvouches
  unvouched _ := h.stamps_eq
  settled hok hno := h.stamps_eq ▸ hsettled hok hno

theorem Unvouched.failed {failure : Failure} (h : Unvouched stamps request S s) :
    Leaving stamps dir request S s (.error failure) := h.leaves nofun

theorem Unwritten.others (k : OwnsStamps E dir stamps) (ho : E.recorded.Others s t)
    (h : Unwritten stamps request S s) : Unwritten stamps request S t where
  stamps_eq := (k.others ho.1).trans h.stamps_eq
  vouched := ho.2 ▸ h.vouched

theorem Unwritten.call (k : OwnsStamps E dir stamps) (hc : ∀ path, c ≠ .writeTime path)
    (hs : E.recorded.Serves s c answer t) (h : Unwritten stamps request S s) :
    Unwritten stamps request S t where
  stamps_eq := (k.calls hc hs.1).trans h.stamps_eq
  vouched := h.vouched.mono (subset_of_serves hs)

/-- The end of a request that saw its version installed or applied it. -/
theorem assures_written (k : OwnsStamps E dir stamps) (h : Unwritten stamps request S s) :
    Assures E.recorded (fun _ => True)
      (do
        Host.makeDirectories dir
        Host.writeTime (Stamp.path dir request.kubeVersion) : HostProcedure Unit).run
      (Leaving stamps dir request S) s := by
  refine assures_host (c := .makeDirectories dir) fun t ht answer u hu => ?_
  obtain rfl := k.makes hu.1
  refine ⟨trivial, fun _ _ => ?_, nofun⟩
  have hu' : Unwritten stamps request S u := (h.others k ht).call k (by simp) hu
  refine Assures.call fun v hv answer w hw => ⟨trivial, Assures.done fun x hx => ?_⟩
  have hv' : Unwritten stamps request S v := hu'.others k hv
  obtain ⟨rfl, hwritten⟩ := k.writes hw.1
  have hvouched : Vouched request x.2 := by
    rw [hx.2]
    exact hv'.vouched.mono (subset_of_serves hw)
  have hstamps : stamps x.1 = insert (Stamp.path dir request.kubeVersion) S := by
    rw [k.others hx.1, hwritten, hv'.stamps_eq]
  exact {
    vouched := fun _ => hstamps
    unvouched := fun hnot => absurd hvouched hnot
    settled := fun _ _ => ⟨hvouched.1, .inr (hstamps ▸ Set.mem_insert _ _)⟩ }

theorem kubeadmUpgrade_ne (version : String) (controlPlane : Bool) {command : Command}
    (h : command.args.head? ≠ some "upgrade") :
    command ≠ .kubeadmUpgrade version controlPlane := by
  rintro rfl
  apply h
  cases controlPlane <;> rfl

/-- Of a command that is no kubeadm command a success vouches for nothing. -/
theorem vouches_of_other {command : Command} (result : Except Failure String)
    (hversion : command ≠ .kubeadmVersion) (hupgrade : command.args.head? ≠ some "upgrade") :
    Event.vouches request ⟨.run command, result⟩ = false := by
  cases result with
  | error failure => rfl
  | ok output =>
    have hne := kubeadmUpgrade_ne request.kubeVersion request.controlPlane hupgrade
    simp [Event.vouches, hversion, hne]

theorem vouches_kubeadmVersion (output : String) :
    Event.vouches request ⟨.run .kubeadmVersion, (.ok output : Except Failure String)⟩ =
      (Text.trim output == request.kubeVersion) := by
  have hne : Command.kubeadmVersion ≠ .kubeadmUpgrade request.kubeVersion request.controlPlane :=
    kubeadmUpgrade_ne _ _ (by decide)
  simp [Event.vouches, hne]

theorem vouches_kubeadmUpgrade (output : String) :
    Event.vouches request ⟨.run (.kubeadmUpgrade request.kubeVersion request.controlPlane),
      (.ok output : Except Failure String)⟩ = true := by
  simp [Event.vouches]

/-- A question whose answer vouches for the version. -/
theorem Unvouched.vouch (k : OwnsStamps E dir stamps) (hc : ∀ path, c ≠ .writeTime path)
    (hvouches : Event.vouches request ⟨c, answer⟩ = true) (hs : E.recorded.Serves s c answer t)
    (h : Unvouched stamps request S s) (hpassed : PassedOs request s.2) :
    Unwritten stamps request S t where
  stamps_eq := (k.calls hc hs.1).trans h.stamps_eq
  vouched := ⟨hpassed.mono (subset_of_serves hs), ⟨c, answer⟩, mem_of_serves hs, hvouches⟩

/-- A question that leaves the stamps alone; where its answer ends the request, it vouches for
nothing. -/
theorem assures_unvouched {α β : Type} (k : OwnsStamps E dir stamps)
    {f : c.Answer → Except Failure α} {g : α → HostProcedure β}
    {R : σ × List (Event Host) → Except Failure β → Prop} (hc : ∀ path, c ≠ .writeTime path)
    (hfailed : ∀ {v failure}, Unvouched stamps request S v → R v (.error failure))
    (hsilent : ∀ answer failure, f answer = .error failure →
      Event.vouches request ⟨c, answer⟩ = false)
    (hnext : ∀ {t u answer a}, E.recorded.Serves t c answer u → t.2 = s.2 →
      Unvouched stamps request S t → f answer = .ok a →
      Assures E.recorded (fun _ => True) (g a).run R u)
    (h : Unvouched stamps request S s) :
    Assures E.recorded (fun _ => True)
      ((ExceptT.mk do return f (← Program.call (I := Host) c)) >>= g).run R s := by
  refine assures_host fun t ht answer u hu => ⟨trivial, fun a ha => ?_, ?_⟩
  · exact hnext hu ht.2 (h.others k ht) ha
  · intro failure hf v hv
    have hu' : Unvouched stamps request S u :=
      (h.others k ht).call k hc (hsilent answer failure hf) hu
    exact hfailed (hu'.others k hv)

theorem assures_unvouched_command {β : Type} (k : OwnsStamps E dir stamps) {command : Command}
    {g : String → HostProcedure β} {R : σ × List (Event Host) → Except Failure β → Prop}
    (hfailed : ∀ {v failure}, Unvouched stamps request S v → R v (.error failure))
    (hnext : ∀ {t u output}, E.recorded.Serves t (.run command) (Except.ok output) u → t.2 = s.2 →
      Unvouched stamps request S t → Assures E.recorded (fun _ => True) (g output).run R u)
    (h : Unvouched stamps request S s) :
    Assures E.recorded (fun _ => True) (Host.run command >>= g).run R s := by
  have hsilent : ∀ (answer : Except Failure String) failure, answer = .error failure →
      Event.vouches request ⟨.run command, answer⟩ = false := by
    rintro answer failure rfl
    rfl
  refine assures_unvouched (c := .run command) (f := fun answer : Except Failure String => answer) k
    (by simp) hfailed hsilent ?_ h
  rintro t u answer output hu ht ht' rfl
  exact hnext hu ht ht'

/-- The version is applied, and stamped if that succeeds. -/
theorem assures_apply (k : OwnsStamps E dir stamps) (h : Unvouched stamps request S s)
    (hpassed : PassedOs request s.2) :
    Assures E.recorded (fun _ => True)
      (do
        let _ ← Host.run .restartKubelet
        let _ ← Host.run (.kubeadmUpgrade request.kubeVersion request.controlPlane)
        Host.makeDirectories dir
        Host.writeTime (Stamp.path dir request.kubeVersion) : HostProcedure Unit).run
      (Leaving stamps dir request S) s := by
  refine assures_unvouched_command k Unvouched.failed (fun {t u output} hu ht ht' => ?_) h
  have hsilent : Event.vouches request
      ⟨.run .restartKubelet, (.ok output : Except Failure String)⟩ = false :=
    vouches_of_other _ (by decide) (by decide)
  have hu' : Unvouched stamps request S u := ht'.call k (by simp) hsilent hu
  refine assures_unvouched_command k Unvouched.failed (fun {v w output} hw hv hv' => ?_) hu'
  have hpassed' : PassedOs request v.2 := by
    rw [hv]
    exact hpassed.mono (ht ▸ subset_of_serves hu)
  exact assures_written k (hv'.vouch k (by simp) (vouches_kubeadmUpgrade output) hw hpassed')

theorem assures_upgradeKubernetes_leaving (k : OwnsStamps E dir stamps)
    (h : Unvouched stamps request S s) (hpassed : PassedOs request s.2) :
    Assures E.recorded (fun _ => True) (upgradeKubernetes dir request).run
      (Leaving stamps dir request S) s := by
  unfold upgradeKubernetes
  refine assures_unvouched (c := .fileExists (Stamp.path dir request.kubeVersion))
    (f := fun answer : Except IoCause Bool => answer.mapError .io) k (by simp) Unvouched.failed
    (fun _ _ _ => rfl) (fun {t u answer found} hu ht ht' hfound => ?_) h
  have hu' : Unvouched stamps request S u := ht'.call k (by simp) rfl hu
  have hpassed' : PassedOs request u.2 := hpassed.mono (ht ▸ subset_of_serves hu)
  rcases k.reads hu.1 with ⟨rfl, hstamped⟩ | ⟨rfl, -⟩
  · -- stamped before, so nothing is left to do
    cases hfound
    rw [ht'.stamps_eq] at hstamped
    refine Assures.done fun v hv => (hu'.others k hv).leaves fun _ _ => ?_
    exact ⟨hv.2 ▸ hpassed', .inr hstamped⟩
  cases hfound
  refine assures_unvouched_command k Unvouched.failed (fun {v w output} hw hv hv' => ?_) hu'
  have hpassed' : PassedOs request v.2 := hv ▸ hpassed'
  have hvouches : Event.vouches request
      ⟨.run .kubeadmVersion, (.ok output : Except Failure String)⟩ =
        (Text.trim output == request.kubeVersion) := vouches_kubeadmVersion output
  dsimp only
  split
  next hother =>
    rw [beq_eq_false_iff_ne.mpr hother] at hvouches
    have hw' : Unvouched stamps request S w := hv'.call k (by simp) hvouches hw
    exact assures_apply k hw' (hpassed'.mono (subset_of_serves hw))
  next hsame =>
    rw [beq_iff_eq.mpr (not_not.mp hsame)] at hvouches
    exact assures_written k (hv'.vouch k (by simp) hvouches hw hpassed')

/-- The OS step keeps the stamps; it ends well in a reboot, or because the OS is the requested
one. -/
theorem assures_upgradeOs_leaving (k : OwnsStamps E dir stamps)
    (h : Unvouched stamps request S s) :
    Assures E.recorded (fun _ => True) (upgradeOs request).run
      (fun s rebooted => Unvouched stamps request S s ∧
        (rebooted = .ok true → Rebooted s.2) ∧ (rebooted = .ok false → PassedOs request s.2)) s := by
  have hfailed : ∀ {v : σ × List (Event Host)} {failure}, Unvouched stamps request S v →
      Unvouched stamps request S v ∧
        ((.error failure : Except Failure Bool) = .ok true → Rebooted v.2) ∧
        ((.error failure : Except Failure Bool) = .ok false → PassedOs request v.2) :=
    fun hv => ⟨hv, nofun, nofun⟩
  unfold upgradeOs
  refine assures_unvouched (c := .osRelease) (f := OsRelease.ofFile) k (by simp) hfailed
    (fun _ _ _ => rfl) (fun {t u answer current} hu ht ht' hcurrent => ?_) h
  have hu' : Unvouched stamps request S u := ht'.call k (by simp) rfl hu
  split
  next hsame =>
    have hpassed : PassedOs request u.2 := by
      have hread : answer ∈ u.2.filterMap Event.osRead? :=
        List.mem_filterMap.mpr ⟨_, mem_of_serves hu, rfl⟩
      exact .inr ⟨answer, hread, hcurrent.trans (congrArg Except.ok hsame)⟩
    exact Assures.done fun v hv => ⟨hu'.others k hv, nofun, fun _ => hv.2 ▸ hpassed⟩
  next =>
    split
    · exact Assures.done fun v hv => hfailed (hu'.others k hv)
    · refine assures_unvouched_command k hfailed (fun {v w output} hw hv hv' => ?_) hu'
      have hrebase : Event.vouches request ⟨.run (.rebase request.osImageUrl),
          (.ok output : Except Failure String)⟩ = false :=
        vouches_of_other _ (by simp [Command.rebase, Command.kubeadmVersion])
          (by simp [Command.rebase])
      have hw' : Unvouched stamps request S w := hv'.call k (by simp) hrebase hw
      refine assures_unvouched_command k hfailed (fun {x y output} hy hx hx' => ?_) hw'
      have hreboot : Event.vouches request
          ⟨.run .reboot, (.ok output : Except Failure String)⟩ = false :=
        vouches_of_other _ (by decide) (by decide)
      have hy' : Unvouched stamps request S y := hx'.call k (by simp) hreboot hy
      have hrebooted : Rebooted y.2 := List.mem_filterMap.mpr ⟨_, mem_of_serves hy, rfl⟩
      exact Assures.done fun z hz => ⟨hy'.others k hz, fun _ => hz.2 ▸ hrebooted, nofun⟩

theorem assures_upgrade_leaving (k : OwnsStamps E dir stamps) (h : Unvouched stamps request S s) :
    Assures E.recorded (fun _ => True) (upgrade dir request).run
      (Leaving stamps dir request S) s := by
  have hkube : ∀ {t}, Unvouched stamps request S t → PassedOs request t.2 →
      Assures E.recorded (fun _ => True)
        (if !request.kubeVersion.isEmpty then upgradeKubernetes dir request else pure ()).run
        (Leaving stamps dir request S) t := by
    intro t ht hpassed
    split
    · exact assures_upgradeKubernetes_leaving k ht hpassed
    next hempty =>
      have hnone : request.kubeVersion = "" := by simpa using hempty
      refine Assures.done fun u hu => (ht.others k hu).leaves fun _ _ => ?_
      exact ⟨hu.2 ▸ hpassed, .inl hnone⟩
  unfold upgrade
  dsimp only
  split
  · refine Assures.attempt ((assures_upgradeOs_leaving k h).mono fun t result ht => ?_)
    obtain ⟨ht, hrebooted, hpassed⟩ := ht
    match result with
    | .error failure => exact fun u hu => (ht.others k hu).failed
    | .ok true =>
      refine Assures.done fun u hu => (ht.others k hu).leaves fun _ hno => ?_
      exact absurd (hu.2 ▸ hrebooted rfl) hno
    | .ok false => exact hkube ht (hpassed rfl)
  next hempty =>
    have hnone : request.osVersion = "" := by simpa using hempty
    exact hkube h (.inl hnone)

/-- What a request that was carried out makes of the stamps. -/
theorem leaves_of_course (k : OwnsStamps E dir stamps) {a b : σ} {ms : List (Moment Host σ)}
    {result : Except Failure Unit}
    (h : Course E a (upgrade dir request).run ms b (.done result)) :
    Visit.Leaves dir ⟨request, ms.map Moment.event, result⟩ (stamps a) (stamps b) := by
  obtain ⟨ms', hrecorded⟩ := h.recorded []
  have hstart : Unvouched stamps request (stamps a) (a, []) := ⟨rfl, by simp⟩
  exact (assures_upgrade_leaving k hstart).result hrecorded

end Visit

section History

variable {E : Setting Host σ} {dir : String} {stamps : σ → Set String} {s t : σ}
  {visits : List Visit}

/-- A version without separators is stamped when some visit for it vouched for it, and only then. -/
theorem Visits.mem_stamps_iff (k : OwnsStamps E dir stamps) (hempty : stamps s = ∅)
    (h : Visits E dir s visits t)
    (hplain : ∀ visit ∈ visits, Stamp.Plain visit.request.kubeVersion) {version : String}
    (hversion : Stamp.Plain version) : Stamp.path dir version ∈ stamps t ↔
      ∃ visit ∈ visits, visit.request.kubeVersion = version ∧ Vouched visit.request visit.log := by
  induction h with
  | start => simp [hempty]
  | others _ change ih =>
    rw [k.others change]
    exact ih hplain
  | @next visits t u request ms result _ course ih =>
    have hbefore := ih fun visit hvisit => hplain visit (List.mem_append_left _ hvisit)
    have hrequest : Stamp.Plain request.kubeVersion :=
      hplain ⟨request, ms.map Moment.event, result⟩
        (List.mem_append_right _ (List.mem_singleton_self _))
    have hleaves := leaves_of_course k course
    simp only [List.mem_append, List.mem_singleton, or_and_right, exists_or, exists_eq_left]
    rw [← hbefore]
    by_cases hvouched : Vouched request (ms.map Moment.event)
    · -- the visit adds its own stamp, which is that of no other version
      have hafter : stamps u = insert (Stamp.path dir request.kubeVersion) (stamps t) :=
        hleaves.vouched hvouched
      rw [hafter, Set.mem_insert_iff, Stamp.path_inj hversion hrequest]
      constructor
      · rintro (rfl | hmem)
        · exact .inr ⟨rfl, hvouched⟩
        · exact .inl hmem
      · rintro (hmem | ⟨rfl, -⟩)
        · exact .inr hmem
        · exact .inl rfl
    · have hafter : stamps u = stamps t := hleaves.unvouched hvouched
      rw [hafter]
      exact ⟨.inl, fun hor => hor.elim id fun hnew => absurd hnew.2 hvouched⟩

/-- A visit that ended well without a reboot leaves its version stamped for good. -/
theorem Visits.settled (k : OwnsStamps E dir stamps) (h : Visits E dir s visits t) {visit : Visit}
    (hvisit : visit ∈ visits) (hok : visit.result = .ok ()) (hno : ¬ Rebooted visit.log) :
    PassedOs visit.request visit.log ∧ (visit.request.kubeVersion = "" ∨
      Stamp.path dir visit.request.kubeVersion ∈ stamps t) := by
  induction h with
  | start => simp at hvisit
  | others _ change ih =>
    rw [k.others change]
    exact ih hvisit
  | next _ course ih =>
    have hleaves := leaves_of_course k course
    rcases List.mem_append.mp hvisit with hold | hnew
    · obtain ⟨hpassed, hstamped⟩ := ih hold
      exact ⟨hpassed, hstamped.imp_right fun hmem => hleaves.subset hmem⟩
    · obtain rfl := List.mem_singleton.mp hnew
      exact hleaves.settled hok hno

end History

section Repetition

variable {E : Setting Host σ} {dir : String} {stamps : σ → Set String} {request : PushRequest}
  {S : Set String} {s t : σ × List (Event Host)} {n : Nat}

/-- So far the request only looked, at most `n` times, and the stamps are those from the start. -/
structure Idle (stamps : σ → Set String) (S : Set String) (n : Nat)
    (s : σ × List (Event Host)) : Prop where
  stamps_eq : stamps s.1 = S
  few : s.2.length ≤ n
  looks : ∀ e ∈ s.2, e.looks = true

theorem Idle.others (k : OwnsStamps E dir stamps) (ho : E.recorded.Others s t)
    (h : Idle stamps S n s) : Idle stamps S n t where
  stamps_eq := (k.others ho.1).trans h.stamps_eq
  few := ho.2 ▸ h.few
  looks := ho.2 ▸ h.looks

theorem Idle.look (k : OwnsStamps E dir stamps) {c : HostCall} {answer : c.Answer}
    (hlooks : Event.looks ⟨c, answer⟩ = true) (hs : E.recorded.Serves s c answer t)
    (h : Idle stamps S n s) : Idle stamps S (n + 1) t where
  stamps_eq := by
    have hc : ∀ path, c ≠ .writeTime path := by
      rintro path rfl
      cases hlooks
    exact (k.calls hc hs.1).trans h.stamps_eq
  few := by
    rw [hs.2, List.length_append, List.length_singleton]
    exact Nat.succ_le_succ h.few
  looks := by
    intro e he
    rw [hs.2, List.mem_append, List.mem_singleton] at he
    rcases he with he | rfl
    · exact h.looks e he
    · exact hlooks

theorem Idle.mono {m : Nat} (h : Idle stamps S n s) (hle : n ≤ m) : Idle stamps S m s :=
  ⟨h.stamps_eq, Nat.le_trans h.few hle, h.looks⟩

theorem assures_upgradeKubernetes_idle (k : OwnsStamps E dir stamps) (h : Idle stamps S 1 s)
    (hstamped : Stamp.path dir request.kubeVersion ∈ S) :
    Assures E.recorded (fun m => Idle stamps S 2 m.after) (upgradeKubernetes dir request).run
      (fun _ result => result = .ok ()) s := by
  unfold upgradeKubernetes
  refine assures_host (c := .fileExists (Stamp.path dir request.kubeVersion))
    (f := fun answer : Except IoCause Bool => answer.mapError .io) fun t ht answer u hu => ?_
  have ht' : Idle stamps S 1 t := h.others k ht
  rcases k.reads hu.1 with ⟨rfl, -⟩ | ⟨rfl, hmissing⟩
  · refine ⟨ht'.look k rfl hu, fun found hfound => ?_, nofun⟩
    cases hfound
    exact Assures.done fun v hv => rfl
  · rw [ht'.stamps_eq] at hmissing
    exact absurd hstamped hmissing

/-- A request for an OS that the host runs and a version that is stamped only looks. -/
theorem assures_upgrade_idle (k : OwnsStamps E dir stamps) (h : Idle stamps S 0 s)
    (hos : request.osVersion = "" ∨ ∀ {s answer t}, E.Serves s .osRelease answer t →
      OsRelease.ofFile answer = .ok request.osVersion)
    (hkube : request.kubeVersion = "" ∨ Stamp.path dir request.kubeVersion ∈ S) :
    Assures E.recorded (fun m => Idle stamps S 2 m.after) (upgrade dir request).run
      (fun _ result => result = .ok ()) s := by
  have hrest : ∀ {t}, Idle stamps S 1 t → Assures E.recorded (fun m => Idle stamps S 2 m.after)
      (if !request.kubeVersion.isEmpty then upgradeKubernetes dir request else pure ()).run
      (fun _ result => result = .ok ()) t := by
    intro t ht
    split
    next hnonempty =>
      have hne : request.kubeVersion ≠ "" := by simpa using hnonempty
      exact assures_upgradeKubernetes_idle k ht (hkube.resolve_left hne)
    · exact Assures.done fun u hu => rfl
  unfold upgrade
  dsimp only
  split
  next hnonempty =>
    have hne : request.osVersion ≠ "" := by simpa using hnonempty
    apply Assures.attempt
    refine assures_host (c := .osRelease) (f := OsRelease.ofFile) fun t ht answer u hu => ?_
    have hcurrent : OsRelease.ofFile answer = .ok request.osVersion := hos.resolve_left hne hu.1
    have hu' : Idle stamps S 1 u := (h.others k ht).look k rfl hu
    refine ⟨hu'.mono (by decide), fun current hsame => ?_, fun failure hfailed => ?_⟩
    · obtain rfl : request.osVersion = current := Except.ok.inj (hcurrent.symm.trans hsame)
      rw [if_pos rfl]
      exact Assures.done fun v hv => hrest (hu'.others k hv)
    · rw [hcurrent] at hfailed
      cases hfailed
  · exact hrest (h.mono (by decide))

theorem idle_of_course (k : OwnsStamps E dir stamps) {a b : σ} {ms : List (Moment Host σ)}
    {p : Program Host (Except Failure Unit)} (h : Course E a (upgrade dir request).run ms b p)
    (hos : request.osVersion = "" ∨ ∀ {s answer t}, E.Serves s .osRelease answer t →
      OsRelease.ofFile answer = .ok request.osVersion)
    (hkube : request.kubeVersion = "" ∨ Stamp.path dir request.kubeVersion ∈ stamps a) :
    Idle stamps (stamps a) 2 (b, ms.map Moment.event) ∧ ∀ result, p = .done result →
      result = .ok () := by
  obtain ⟨ms', hrecorded⟩ := h.recorded []
  have hstart : Idle stamps (stamps a) 0 (a, []) := ⟨rfl, Nat.le_refl 0, by simp⟩
  have hassured := assures_upgrade_idle k hstart hos hkube
  refine ⟨?_, ?_⟩
  · obtain ⟨-, hcalls⟩ := hassured.course hrecorded
    exact hrecorded.preserves (Idle.others k) (fun m hm _ => hcalls m hm) (hstart.mono (by decide))
  · rintro result rfl
    exact hassured.result hrecorded

end Repetition

/-- What the stamps tell after these visits, on a host that keeps them. -/
structure StampsTell (E : Setting Host σ) (dir : String) (stamps : σ → Set String)
    (visits : List Visit) (t : σ) : Prop where
  /-- A version is stamped exactly when a visit for it vouched for it. -/
  sound : ∀ version, Stamp.Plain version → (Stamp.path dir version ∈ stamps t ↔
    ∃ visit ∈ visits, visit.request.kubeVersion = version ∧ Vouched visit.request visit.log)
  /-- A visit that ended well without a reboot is not carried out again: while the host names the
  same OS, a request for the same versions looks twice at most, and ends well. -/
  repeats : ∀ visit ∈ visits, visit.result = .ok () → ¬ Rebooted visit.log →
    ∀ request : PushRequest, request.kubeVersion = visit.request.kubeVersion →
      request.osVersion = visit.request.osVersion → ∀ {ms u p},
      Course E t (upgrade dir request).run ms u p →
      (∀ a ∈ visit.log.filterMap Event.osRead?,
        ∀ b ∈ (ms.map Moment.event).filterMap Event.osRead?, b = a) →
      Idle stamps (stamps t) 2 (u, ms.map Moment.event) ∧
        ∀ result, p = .done result → result = .ok ()

/-- From a directory without stamps on, the stamps tell what the visits saw. -/
theorem Visits.stampsTell {E : Setting Host σ} {dir : String} {stamps : σ → Set String} {s t : σ}
    {visits : List Visit} (k : OwnsStamps E dir stamps) (hempty : stamps s = ∅)
    (h : Visits E dir s visits t)
    (hplain : ∀ visit ∈ visits, Stamp.Plain visit.request.kubeVersion) :
    StampsTell E dir stamps visits t where
  sound _ hversion := h.mem_stamps_iff k hempty hplain hversion
  repeats := by
    intro visit hvisit hok hno request hkube hos ms u p hcourse hsame
    obtain ⟨hpassed, hstamped⟩ := h.settled k hvisit hok hno
    rw [← hkube] at hstamped
    -- the same file names the same OS, so the OS step lets the request through again
    let ok : Event Host → Prop := fun e => ∀ answer, e.osRead? = some answer →
      request.osVersion = "" ∨ OsRelease.ofFile answer = .ok request.osVersion
    have hreads : ∀ m ∈ ms, ok m.event := by
      intro m hm answer hanswer
      rcases hpassed with hnone | ⟨first, hfirst, hname⟩
      · exact .inl (hos.trans hnone)
      · have hread : answer ∈ (ms.map Moment.event).filterMap Event.osRead? :=
          List.mem_filterMap.mpr ⟨m.event, List.mem_map_of_mem hm, hanswer⟩
        obtain rfl := hsame first hfirst answer hread
        exact .inr (hname.trans (congrArg Except.ok hos.symm))
    refine idle_of_course (k.limited ok) (hcourse.limited hreads) ?_ hstamped
    by_cases hnone : request.osVersion = ""
    · exact .inl hnone
    · exact .inr fun hserves => (hserves.2 _ rfl).resolve_left hnone

section Sample

/-- A host of stamps alone. -/
def stampFiles : Setting Host (Set String) where
  Serves files c answer files' :=
    match c, answer with
    | .fileExists path, answer => files' = files ∧
      (answer = Except.ok true ∧ path ∈ files ∨ answer = Except.ok false ∧ path ∉ files)
    | .makeDirectories _, answer => answer = Except.ok () ∧ files' = files
    | .writeTime path, answer => answer = Except.ok () ∧ files' = insert path files
    | .osRelease, _ | .run _, _ => files' = files
  Others := Eq
  idle _ := rfl
  chain := Eq.trans

theorem ownsStamps_stampFiles (dir : String) : OwnsStamps stampFiles dir id where
  reads hs := hs.2
  makes hs := hs.1
  writes hs := hs
  calls := by
    intro s c answer t hc hs
    cases c with
    | osRelease => exact hs
    | fileExists => exact hs.1
    | run => exact hs
    | makeDirectories => exact hs.2
    | writeTime path => exact absurd rfl (hc path)
  others ho := ho.symm

/-- A request whose OS is in place asks no more for it. -/
theorem course_passedOs {E : Setting Host σ} {dir : String} {request : PushRequest} {s t u : σ}
    {answer : Except IoCause (List UInt8)} {ms : List (Moment Host σ)}
    {p : Program Host (Except Failure Unit)} (hos : request.osVersion ≠ "")
    (hname : OsRelease.ofFile answer = .ok request.osVersion)
    (hserves : E.Serves s .osRelease answer t)
    (h : Course E t
      (if !request.kubeVersion.isEmpty then upgradeKubernetes dir request else pure ()).run ms u p) :
    Course E s (upgrade dir request).run (⟨s, ⟨.osRelease, answer⟩, t⟩ :: ms) u p := by
  unfold upgrade upgradeOs
  have hnonempty : (!request.osVersion.isEmpty) = true := by simpa using hos
  rw [hnonempty]
  refine .call hserves ?_
  dsimp only [Program.andThen, ExceptT.bindCont, pure]
  rw [hname]
  dsimp only [Program.andThen, ExceptT.bindCont, pure]
  rw [if_pos rfl]
  exact h

def versionRequest : PushRequest := ⟨"v1.29.1", "Fedora 40", "", true⟩

/-- The same versions, asked for in another role and with an image. -/
def repeatedRequest : PushRequest := ⟨"v1.29.1", "Fedora 40", "quay.io/fedora:40", false⟩

def osFile : Except IoCause (List UInt8) := .ok "PRETTY_NAME=\"Fedora 40\"\n".toUTF8.toList

theorem ofFile_osFile : OsRelease.ofFile osFile = .ok "Fedora 40" := by decide +kernel

def drained : Failure :=
  .commandFailed "kubeadm upgrade apply v1.29.1 --yes" "exit status: 1: drained"

def versionStamp : String := Stamp.path "/run" "v1.29.1"

theorem serves_missing {path : String} {files : Set String} (h : path ∉ files) :
    stampFiles.Serves files (.fileExists path) (Except.ok false) files := ⟨rfl, .inr ⟨rfl, h⟩⟩

theorem serves_run (command : Command) (result : Except Failure String) (files : Set String) :
    stampFiles.Serves files (.run command) result files := rfl

theorem serves_writeTime (path : String) (files : Set String) :
    stampFiles.Serves files (.writeTime path) (Except.ok ()) (insert path files) := ⟨rfl, rfl⟩

/-- kubeadm fails at first. -/
theorem course_failed : ∃ ms, Course stampFiles ∅ (upgrade "/run" versionRequest).run ms ∅
    (.done (.error drained)) := by
  have hunstamped : versionStamp ∉ (∅ : Set String) := Set.notMem_empty _
  have hcourse : Course stampFiles ∅ (upgradeKubernetes "/run" versionRequest).run _ ∅
      (.done (.error drained)) :=
    .call (serves_missing hunstamped)
      (.call (serves_run _ (.ok "v1.28.0\n") ∅)
        (.call (serves_run _ (.ok "") ∅)
          (.call (serves_run _ (.error drained) ∅) (.stay ∅ _))))
  exact ⟨_, course_passedOs (by decide) ofFile_osFile rfl hcourse⟩

/-- The request is sent again, and the version is applied. -/
theorem course_applied : ∃ ms, Course stampFiles ∅ (upgrade "/run" versionRequest).run ms
    {versionStamp} (.done (.ok ())) ∧ ¬ Rebooted (ms.map Moment.event) ∧
    (ms.map Moment.event).filterMap Event.osRead? = [osFile] := by
  have hunstamped : versionStamp ∉ (∅ : Set String) := Set.notMem_empty _
  have hdirectory : stampFiles.Serves ∅ (.makeDirectories "/run") (Except.ok ()) ∅ := ⟨rfl, rfl⟩
  have hwritten : stampFiles.Serves ∅ (.writeTime versionStamp) (Except.ok ()) {versionStamp} := by
    have hinsert := serves_writeTime versionStamp ∅
    rwa [LawfulSingleton.insert_empty_eq] at hinsert
  have hcourse : Course stampFiles ∅ (upgradeKubernetes "/run" versionRequest).run _
      {versionStamp} (.done (.ok ())) :=
    .call (serves_missing hunstamped)
      (.call (serves_run _ (.ok "v1.28.0\n") ∅)
        (.call (serves_run _ (.ok "") ∅)
          (.call (serves_run _ (.ok "") ∅)
            (.call hdirectory (.call hwritten (.stay _ _))))))
  refine ⟨_, course_passedOs (by decide) ofFile_osFile rfl hcourse, ?_, rfl⟩
  have hcommands : Command.reboot ∉ [Command.kubeadmVersion, .restartKubelet,
    .kubeadmUpgrade "v1.29.1" true] := by decide
  exact hcommands

/-- Asked for once more, in another role, it only looks. -/
theorem course_repeated : ∃ ms, Course stampFiles {versionStamp}
    (upgrade "/run" repeatedRequest).run ms {versionStamp} (.done (.ok ())) ∧
    (ms.map Moment.event).filterMap Event.osRead? = [osFile] := by
  have hstamped : stampFiles.Serves {versionStamp} (.fileExists versionStamp) (Except.ok true)
      {versionStamp} := ⟨rfl, .inl ⟨rfl, Set.mem_singleton _⟩⟩
  have hcourse : Course stampFiles {versionStamp} (upgradeKubernetes "/run" repeatedRequest).run _
      {versionStamp} (.done (.ok ())) := .call hstamped (.stay _ _)
  exact ⟨_, course_passedOs (by decide) ofFile_osFile rfl hcourse, rfl⟩

/-- After a failure and a success the version is stamped, and a repetition runs no command. -/
theorem stampsTell_retried : ∃ visits, Visits stampFiles "/run" ∅ visits {versionStamp} ∧
    visits.map Visit.result = [.error drained, .ok ()] ∧
    (∀ visit ∈ visits, Stamp.Plain visit.request.kubeVersion) ∧
    StampsTell stampFiles "/run" id visits {versionStamp} ∧
    ∃ ms, Course stampFiles {versionStamp} (upgrade "/run" repeatedRequest).run ms {versionStamp}
      (.done (.ok ())) ∧ Idle id {versionStamp} 2 ({versionStamp}, ms.map Moment.event) := by
  obtain ⟨ms₁, hfailed⟩ := course_failed
  obtain ⟨ms₂, happlied, hno, hread⟩ := course_applied
  obtain ⟨ms₃, hrepeated, hreread⟩ := course_repeated
  have hvisits := (Visits.start.next hfailed).next happlied
  have hplain : Stamp.Plain "v1.29.1" := ⟨by decide, by decide⟩
  have hplains : ∀ visit ∈ [⟨versionRequest, ms₁.map Moment.event, .error drained⟩,
      (⟨versionRequest, ms₂.map Moment.event, .ok ()⟩ : Visit)],
      Stamp.Plain visit.request.kubeVersion :=
    List.forall_mem_cons.mpr ⟨hplain, List.forall_mem_singleton.mpr hplain⟩
  have htell := Visits.stampsTell (ownsStamps_stampFiles "/run") rfl hvisits hplains
  refine ⟨_, hvisits, rfl, hplains, htell, ms₃, hrepeated, ?_⟩
  have hsame : ∀ a ∈ (ms₂.map Moment.event).filterMap Event.osRead?,
      ∀ b ∈ (ms₃.map Moment.event).filterMap Event.osRead?, b = a := by
    rw [hread, hreread]
    simp
  exact (htell.repeats _ (List.mem_append_right _ (List.mem_singleton_self _)) rfl hno
    repeatedRequest rfl rfl hrepeated hsame).1

end Sample

end Agent

end NodeRollout
