import Mathlib.Data.Finset.Insert
import NodeRollout.Proofs.StampRecords

/-! What a request makes the agent run. The OS file, the stamps and the results of the commands
prescribe a sequence of commands. The agent runs it up to the first command that fails, whose failure
is its own, and it stamps the version only after the whole sequence. -/
namespace NodeRollout

open Program

/-- What a host has to say to a request: its os-release file, and what each command gives. -/
structure Situation where
  osFile : Except IoCause (List UInt8)
  results : Command → Except Failure String

namespace Program.Event

/-- The failure of an operation on the stamps. -/
def fault? : Event Host → Option Failure
  | ⟨.fileExists _, .error cause⟩ | ⟨.makeDirectories _, .error cause⟩
  | ⟨.writeTime _, .error cause⟩ => some (.io cause)
  | _ => none

end Program.Event

namespace Situation

variable (situation : Situation) (dir : String) (request : PushRequest) (stamps : Finset String)

/-- A host in this situation with stamps of its own. Any operation on them may fail, and a write that
fails may have made the file. -/
def host : Setting Host (Finset String) where
  Serves stamps c answer stamps' :=
    match c, answer with
    | .osRelease, answer => answer = situation.osFile ∧ stamps' = stamps
    | .run command, answer => answer = situation.results command ∧ stamps' = stamps
    | .fileExists path, answer => stamps' = stamps ∧
      (answer = Except.ok (decide (path ∈ stamps)) ∨ ∃ cause, answer = Except.error cause)
    | .makeDirectories _, _ => stamps' = stamps
    | .writeTime path, answer => stamps' = insert path stamps ∨
      stamps' = stamps ∧ ∃ cause, answer = Except.error cause
  Others := Eq
  idle _ := rfl
  chain := Eq.trans

/-- The request names an OS, and the file another one. -/
def differs : Bool :=
  !request.osVersion.isEmpty &&
    match OsRelease.ofFile situation.osFile with
    | .ok name => name != request.osVersion
    | .error _ => false

/-- kubeadm prints the requested version. -/
def installed : Bool :=
  match situation.results .kubeadmVersion with
  | .ok output => Text.trim output == request.kubeVersion
  | .error _ => false

/-- The commands for a Kubernetes version that has no stamp. -/
def kubernetesPlan : List Command :=
  .kubeadmVersion :: if situation.installed request then []
    else [.restartKubelet, .kubeadmUpgrade request.kubeVersion request.controlPlane]

/-- The request names a version without a stamp. -/
def unstamped : Bool :=
  !request.kubeVersion.isEmpty && decide (Stamp.path dir request.kubeVersion ∉ stamps)

/-- The commands that the request prescribes. -/
def prescribed : List Command :=
  if situation.differs request then [.rebase request.osImageUrl, .reboot]
  else if unstamped dir request stamps then situation.kubernetesPlan request
  else []

/-- Why the request fails before any command: the file cannot be read, or it names another OS than
the one that is asked for without an image. -/
def refusal? : Option Failure :=
  if request.osVersion.isEmpty then none
  else match OsRelease.ofFile situation.osFile with
    | .error failure => some failure
    | .ok name =>
      if name ≠ request.osVersion ∧ request.osImageUrl.isEmpty then
        some (.protocol s!"OS version {request.osVersion} requested without an image URL")
      else none

variable {situation dir request stamps}

theorem program_of_differs (hdiffers : situation.differs request = true) :
    ∀ command ∈ situation.prescribed dir request stamps, command.program ≠ "kubeadm" := by
  rw [prescribed, if_pos hdiffers]
  simp [Command.rebase, Command.reboot]

theorem program_kubernetesPlan :
    ∀ command ∈ situation.kubernetesPlan request,
      command.program ≠ "rpm-ostree" ∧ command ≠ .reboot := by
  have hupgrade : (Command.kubeadmUpgrade request.kubeVersion request.controlPlane).program =
      "kubeadm" := by
    cases hrole : request.controlPlane <;> simp [Command.kubeadmUpgrade]
  rw [kubernetesPlan]
  refine List.forall_mem_cons.mpr ⟨by decide, ?_⟩
  split
  · exact List.forall_mem_nil _
  · refine List.forall_mem_cons.mpr
      ⟨by decide, List.forall_mem_singleton.mpr ⟨by simp [hupgrade], ?_⟩⟩
    intro hreboot
    rw [hreboot] at hupgrade
    revert hupgrade
    decide

theorem program_of_same (hsame : situation.differs request = false) :
    ∀ command ∈ situation.prescribed dir request stamps,
      command.program ≠ "rpm-ostree" ∧ command ≠ .reboot := by
  rw [prescribed, hsame, if_neg Bool.false_ne_true]
  split
  · exact program_kubernetesPlan
  · exact List.forall_mem_nil _

/-- kubeadm is asked for its version exactly in plans that end with the stamp. -/
theorem kubeadmVersion_mem_prescribed :
    .kubeadmVersion ∈ situation.prescribed dir request stamps ↔
      (!situation.differs request && unstamped dir request stamps) = true := by
  cases hdiffers : situation.differs request with
  | true =>
    have hno : Command.kubeadmVersion ∉ situation.prescribed dir request stamps :=
      fun hmem => program_of_differs hdiffers _ hmem rfl
    simp [hno]
  | false =>
    rw [prescribed, hdiffers, if_neg Bool.false_ne_true]
    cases unstamped dir request stamps <;> simp [kubernetesPlan]

end Situation

namespace Agent

/-- The commands of a log, in order. -/
def commands (log : List (Event Host)) : List Command := log.filterMap Event.command?

variable {situation : Situation} {dir : String} {request : PushRequest}
  {stamps stamps' : Finset String} {events : List (Event Host)} {result : Except Failure Unit}

/-- What the agent does with a request in a situation. -/
structure Follows (situation : Situation) (dir : String) (request : PushRequest)
    (stamps : Finset String) (events : List (Event Host)) (stamps' : Finset String)
    (result : Except Failure Unit) : Prop where
  runs : commands events <+: situation.prescribed dir request stamps
  /-- A command that fails is the last one, and its failure is the result. -/
  stops : ∀ before command after failure, commands events = before ++ command :: after →
    situation.results command = .error failure → after = [] ∧ result = .error failure
  refuses : ∀ failure, situation.refusal? request = some failure →
    commands events = [] ∧ result = .error failure
  finishes : result = .ok () → commands events = situation.prescribed dir request stamps
  /-- Nothing else makes it fail but an operation on the stamps. -/
  fails : ∀ failure, result = .error failure → situation.refusal? request = some failure ∨
    (∃ command ∈ commands events, situation.results command = .error failure) ∨
    ∃ e ∈ events, e.fault? = some failure
  apart : ¬ ((∃ command ∈ commands events, command.program = "rpm-ostree") ∧
    ∃ command ∈ commands events, command.program = "kubeadm")
  keeps : (∃ command ∈ commands events, ∃ failure, situation.results command = .error failure) ∨
    (∃ failure, situation.refusal? request = some failure) ∨ .reboot ∈ commands events →
    stamps' = stamps
  /-- When the operations on the stamps succeed, the version gets its stamp exactly when its step
  was reached and ended well. -/
  stamps_eq : (∀ e ∈ events, e.fault? = none) →
    stamps' = if result = .ok () ∧ .kubeadmVersion ∈ commands events
      then insert (Stamp.path dir request.kubeVersion) stamps else stamps

/-- The calls that carry out a list of commands after looking around, with the stamp at the end or
without it. -/
inductive Performs (situation : Situation) (dir stamp : String) (stamps : Finset String) :
    Bool → List Command → List (Event Host) → Finset String → Except Failure Unit → Prop where
  | look {stamping : Bool} {plan : List Command} {e : Event Host} {events : List (Event Host)}
      {stamps' : Finset String} {result : Except Failure Unit} (looks : e.looks = true)
      (fault : e.fault? = none)
      (rest : Performs situation dir stamp stamps stamping plan events stamps' result) :
      Performs situation dir stamp stamps stamping plan (e :: events) stamps' result
  | unseen {stamping : Bool} {plan : List Command} {path : String} {cause : IoCause} :
      Performs situation dir stamp stamps stamping plan [⟨.fileExists path, Except.error cause⟩]
        stamps (.error (.io cause))
  | run {stamping : Bool} {command : Command} {plan : List Command} {output : String}
      {events : List (Event Host)} {stamps' : Finset String} {result : Except Failure Unit}
      (hresult : situation.results command = .ok output)
      (rest : Performs situation dir stamp stamps stamping plan events stamps' result) :
      Performs situation dir stamp stamps stamping (command :: plan)
        (⟨.run command, (.ok output : Except Failure String)⟩ :: events) stamps' result
  | failed {stamping : Bool} {command : Command} {plan : List Command} {failure : Failure}
      (hresult : situation.results command = .error failure) :
      Performs situation dir stamp stamps stamping (command :: plan)
        [⟨.run command, (.error failure : Except Failure String)⟩] stamps (.error failure)
  | through : Performs situation dir stamp stamps false [] [] stamps (.ok ())
  | unmade {cause : IoCause} : Performs situation dir stamp stamps true []
      [⟨.makeDirectories dir, Except.error cause⟩] stamps (.error (.io cause))
  | unwritten {cause : IoCause} {stamps' : Finset String} :
      Performs situation dir stamp stamps true []
        [⟨.makeDirectories dir, Except.ok ()⟩, ⟨.writeTime stamp, Except.error cause⟩] stamps'
        (.error (.io cause))
  | written : Performs situation dir stamp stamps true []
      [⟨.makeDirectories dir, Except.ok ()⟩, ⟨.writeTime stamp, Except.ok ()⟩] (insert stamp stamps)
      (.ok ())

theorem commands_look {e : Event Host} (hlooks : e.looks = true) (events : List (Event Host)) :
    commands (e :: events) = commands events := by
  refine List.filterMap_cons_none ?_
  match e with
  | ⟨.osRelease, _⟩ | ⟨.fileExists _, _⟩ => rfl

namespace Performs

variable {stamp : String} {stamping : Bool} {plan : List Command}

theorem isPrefix (h : Performs situation dir stamp stamps stamping plan events stamps' result) :
    commands events <+: plan := by
  induction h with
  | look looks _ _ ih =>
    rw [commands_look looks]
    exact ih
  | run _ _ ih => exact (List.prefix_cons_inj _).mpr ih
  | failed => exact (List.prefix_cons_inj _).mpr List.nil_prefix
  | unseen | through | unmade | unwritten | written => exact List.nil_prefix

theorem stops (h : Performs situation dir stamp stamps stamping plan events stamps' result)
    {before after : List Command} {command : Command} {failure : Failure}
    (hcommands : commands events = before ++ command :: after)
    (hfailed : situation.results command = .error failure) :
    after = [] ∧ result = .error failure := by
  induction h generalizing before with
  | look looks _ _ ih => exact ih (commands_look looks _ ▸ hcommands)
  | @run stamping ran plan output events stamps' result hresult _ ih =>
    have hcons : ran :: commands events = before ++ command :: after := hcommands
    cases before with
    | nil =>
      obtain ⟨rfl, -⟩ := List.cons.inj hcons
      rw [hresult] at hfailed
      cases hfailed
    | cons first before => exact ih (List.cons.inj hcons).2
  | @failed stamping ran plan failure' hresult =>
    have hcons : [ran] = before ++ command :: after := hcommands
    obtain ⟨rfl, hcons⟩ := List.singleton_eq_append_iff.mp hcons |>.resolve_right (by simp)
    obtain ⟨rfl, rfl⟩ := List.cons.inj hcons
    obtain rfl := Except.error.inj (hresult.symm.trans hfailed)
    exact ⟨rfl, rfl⟩
  | unseen | through | unmade | unwritten | written =>
    have hnil : [] = before ++ command :: after := hcommands
    simp at hnil

theorem finishes (h : Performs situation dir stamp stamps stamping plan events stamps' (.ok ())) :
    commands events = plan := by
  generalize hok : (Except.ok () : Except Failure Unit) = result at h
  induction h with
  | look looks _ _ ih => exact (commands_look looks _).trans (ih hok)
  | run _ _ ih => exact congrArg (List.cons _) (ih hok)
  | unseen | failed | unmade | unwritten => cases hok
  | through | written => rfl

theorem fails {failure : Failure}
    (h : Performs situation dir stamp stamps stamping plan events stamps' (.error failure)) :
    (∃ command ∈ commands events, situation.results command = .error failure) ∨
      ∃ e ∈ events, e.fault? = some failure := by
  generalize hfailed : (Except.error failure : Except Failure Unit) = result at h
  induction h with
  | look looks _ _ ih =>
    rw [commands_look looks]
    exact (ih hfailed).imp_right fun ⟨e, he, hfault⟩ => ⟨e, List.mem_cons_of_mem _ he, hfault⟩
  | run _ _ ih =>
    rcases ih hfailed with ⟨command, hcommand, hresult⟩ | ⟨e, he, hfault⟩
    · exact .inl ⟨command, List.mem_cons_of_mem _ hcommand, hresult⟩
    · exact .inr ⟨e, List.mem_cons_of_mem _ he, hfault⟩
  | failed hresult =>
    cases hfailed
    exact .inl ⟨_, List.mem_singleton_self _, hresult⟩
  | unseen | unmade | unwritten =>
    cases hfailed
    exact .inr (by simp [Event.fault?])
  | through | written => cases hfailed

/-- A command that fails keeps the stamp from being written, and so does a plan without a stamp. -/
theorem keeps (h : Performs situation dir stamp stamps stamping plan events stamps' result)
    (hno : stamping = false ∨
      ∃ command ∈ commands events, ∃ failure, situation.results command = .error failure) :
    stamps' = stamps := by
  induction h with
  | look looks _ _ ih => exact ih (commands_look looks _ ▸ hno)
  | @run _ ran _ _ events _ _ hresult _ ih =>
    refine ih (hno.imp_right ?_)
    rintro ⟨command, hcommand, failure, hfailed⟩
    have hmem : command ∈ ran :: commands events := hcommand
    rcases List.mem_cons.mp hmem with rfl | hmem
    · rw [hresult] at hfailed
      cases hfailed
    · exact ⟨command, hmem, failure, hfailed⟩
  | unseen | failed | through | unmade => rfl
  | unwritten | written => simp [commands, Event.command?] at hno

theorem stamps_eq (h : Performs situation dir stamp stamps stamping plan events stamps' result)
    (hfault : ∀ e ∈ events, e.fault? = none) :
    stamps' = if result = .ok () ∧ stamping = true then insert stamp stamps else stamps := by
  induction h with
  | look _ _ _ ih => exact ih (List.forall_mem_cons.mp hfault).2
  | run _ _ ih => exact ih (List.forall_mem_cons.mp hfault).2
  | unseen | failed | unmade => rw [if_neg (by simp)]
  | unwritten => simp [Event.fault?] at hfault
  | through => rw [if_neg (by simp)]
  | written => rw [if_pos ⟨rfl, rfl⟩]

end Performs

section Course

variable {α β : Type} {t : Finset String} {ms : List (Moment Host (Finset String))}

/-- A question to the host, and what comes after it. -/
theorem course_host {c : HostCall} {f : c.Answer → Except Failure α} {g : α → HostProcedure β}
    {r : Except Failure β} (h : Course situation.host stamps
      ((ExceptT.mk do return f (← Program.call (I := Host) c)) >>= g).run ms t (.done r)) :
    ∃ answer u rest, situation.host.Serves stamps c answer u ∧
      ms.map Moment.event = ⟨c, answer⟩ :: rest.map Moment.event ∧
      match f answer with
      | .ok a => Course situation.host u (g a).run rest t (.done r)
      | .error failure => rest = [] ∧ t = u ∧ r = .error failure := by
  obtain ⟨s, answer, u, rest, rfl, hserves, rfl, hrest⟩ := h.ask_done
  refine ⟨answer, u, rest, hserves, rfl, ?_⟩
  change Course situation.host u (ExceptT.bindCont g (f answer)) rest t (.done r) at hrest
  cases hf : f answer with
  | ok a =>
    rw [hf] at hrest
    exact hrest
  | error failure =>
    rw [hf] at hrest
    obtain ⟨rfl, rfl, rfl⟩ := hrest.done_done
    exact ⟨rfl, rfl, rfl⟩

theorem course_command {command : Command} {g : String → HostProcedure β} {r : Except Failure β}
    (h : Course situation.host stamps (Host.run command >>= g).run ms t (.done r)) :
    (∃ failure, situation.results command = .error failure ∧ r = .error failure ∧ t = stamps ∧
      ms.map Moment.event = [⟨.run command, (.error failure : Except Failure String)⟩]) ∨
    ∃ output rest, situation.results command = .ok output ∧
      Course situation.host stamps (g output).run rest t (.done r) ∧
      ms.map Moment.event =
        ⟨.run command, (.ok output : Except Failure String)⟩ :: rest.map Moment.event := by
  obtain ⟨answer, u, rest, ⟨rfl, rfl⟩, hevents, hrest⟩ := course_host (c := .run command)
    (f := fun answer : Except Failure String => answer) h
  cases hresult : situation.results command with
  | error failure =>
    rw [hresult] at hevents hrest
    obtain ⟨rfl, rfl, rfl⟩ := hrest
    exact .inl ⟨failure, rfl, rfl, rfl, hevents⟩
  | ok output =>
    rw [hresult] at hevents hrest
    exact .inr ⟨output, rest, rfl, hrest, hevents⟩

/-- What remains of a request, without the stamp at the end or with it. -/
theorem performs_of_command {stamp : String} {stamping : Bool} {plan : List Command}
    {command : Command} {g : String → HostProcedure Unit}
    (h : Course situation.host stamps (Host.run command >>= g).run ms t (.done result))
    (hrest : ∀ {output rest}, situation.results command = .ok output →
      Course situation.host stamps (g output).run rest t (.done result) →
      Performs situation dir stamp stamps stamping plan (rest.map Moment.event) t result) :
    Performs situation dir stamp stamps stamping (command :: plan) (ms.map Moment.event) t
      result := by
  rcases course_command h with ⟨failure, hresult, rfl, rfl, hevents⟩ |
    ⟨output, rest, hresult, hcourse, hevents⟩
  · exact hevents ▸ .failed hresult
  · exact hevents ▸ .run hresult (hrest hresult hcourse)

theorem performs_of_stamping {stamp : String} (h : Course situation.host stamps
    (do Host.makeDirectories dir; Host.writeTime stamp : HostProcedure Unit).run ms t
      (.done result)) :
    Performs situation dir stamp stamps true [] (ms.map Moment.event) t result := by
  obtain ⟨answer, u, rest, hserves, hevents, hrest⟩ := course_host (c := .makeDirectories dir)
    (f := fun answer : Except IoCause Unit => answer.mapError .io) h
  obtain rfl : u = stamps := hserves
  rw [hevents]
  cases answer with
  | error cause =>
    obtain ⟨rfl, rfl, rfl⟩ := hrest
    exact .unmade
  | ok =>
    obtain ⟨s, answer, v, rest', rfl, hwritten, rfl, hrest'⟩ := Course.ask_done hrest
    cases answer with
    | error cause =>
      obtain ⟨rfl, rfl, rfl⟩ := hrest'.done_done
      exact .unwritten
    | ok =>
      obtain ⟨rfl, rfl, rfl⟩ := hrest'.done_done
      obtain rfl : v = insert stamp u := hwritten.resolve_right (by simp)
      exact .written

theorem performs_of_upgradeKubernetes (hkube : request.kubeVersion.isEmpty = false)
    (h : Course situation.host stamps (upgradeKubernetes dir request).run ms t (.done result)) :
    Performs situation dir (Stamp.path dir request.kubeVersion) stamps
      (Situation.unstamped dir request stamps)
      (if Situation.unstamped dir request stamps then situation.kubernetesPlan request else [])
      (ms.map Moment.event) t result := by
  unfold upgradeKubernetes at h
  obtain ⟨answer, u, rest, ⟨rfl, hanswer⟩, hevents, hrest⟩ := course_host
    (c := .fileExists (Stamp.path dir request.kubeVersion))
    (f := fun answer : Except IoCause Bool => answer.mapError .io) h
  rw [hevents]
  rcases hanswer with rfl | ⟨cause, rfl⟩
  · refine .look rfl rfl ?_
    by_cases hstamp : Stamp.path dir request.kubeVersion ∈ u
    · have hunstamped : Situation.unstamped dir request u = false := by
        simp [Situation.unstamped, hstamp]
      simp only [hstamp, decide_true] at hrest
      obtain ⟨rfl, rfl, rfl⟩ := Course.done_done hrest
      rw [hunstamped]
      exact .through
    · have hunstamped : Situation.unstamped dir request u = true := by
        simp [Situation.unstamped, hstamp, hkube]
      simp only [hstamp, decide_false] at hrest
      rw [hunstamped]
      refine performs_of_command hrest fun {output rest} hresult hcourse => ?_
      have hinstalled : situation.installed request =
          (Text.trim output == request.kubeVersion) := by
        simp only [Situation.installed, hresult]
      -- a version that is not installed is applied before it is stamped
      split at hcourse
      next hother =>
        rw [hinstalled, beq_eq_false_iff_ne.mpr hother]
        refine performs_of_command hcourse fun _ hcourse => ?_
        exact performs_of_command hcourse fun _ hcourse => performs_of_stamping hcourse
      next hsame =>
        rw [hinstalled, beq_iff_eq.mpr (not_not.mp hsame)]
        exact performs_of_stamping hcourse
  · obtain ⟨rfl, rfl, rfl⟩ := hrest
    exact .unseen

/-- What comes after the OS step. -/
theorem performs_of_kubernetes_step
    (h : Course situation.host stamps
      (if !request.kubeVersion.isEmpty then upgradeKubernetes dir request else pure ()).run ms t
        (.done result)) :
    Performs situation dir (Stamp.path dir request.kubeVersion) stamps
      (Situation.unstamped dir request stamps)
      (if Situation.unstamped dir request stamps then situation.kubernetesPlan request else [])
      (ms.map Moment.event) t result := by
  cases hkube : request.kubeVersion.isEmpty with
  | true =>
    have hunstamped : Situation.unstamped dir request stamps = false := by
      simp [Situation.unstamped, hkube]
    rw [hkube] at h
    obtain ⟨rfl, rfl, rfl⟩ := Course.done_done h
    rw [hunstamped]
    exact .through
  | false =>
    rw [hkube] at h
    exact performs_of_upgradeKubernetes hkube h

/-- The request is refused for its OS, or its plan is carried out. -/
theorem refused_or_performs
    (h : Course situation.host stamps (upgrade dir request).run ms t (.done result)) :
    (∃ failure, situation.refusal? request = some failure ∧ result = .error failure ∧ t = stamps ∧
      ∀ e ∈ ms.map Moment.event, e.command? = none) ∨
    situation.refusal? request = none ∧
      Performs situation dir (Stamp.path dir request.kubeVersion) stamps
        (!situation.differs request && Situation.unstamped dir request stamps)
        (situation.prescribed dir request stamps) (ms.map Moment.event) t result := by
  cases hos : request.osVersion.isEmpty with
  | true =>
    have hdiffers : situation.differs request = false := by simp [Situation.differs, hos]
    have hrefusal : situation.refusal? request = none := by simp [Situation.refusal?, hos]
    simp only [upgrade, hos] at h
    rw [Situation.prescribed, hdiffers]
    exact .inr ⟨hrefusal, performs_of_kubernetes_step h⟩
  | false =>
    simp only [upgrade, hos, upgradeOs, bind_assoc] at h
    obtain ⟨answer, u, rest, ⟨rfl, rfl⟩, hevents, hrest⟩ := course_host (c := .osRelease)
      (f := OsRelease.ofFile) h
    rw [hevents]
    cases hfile : OsRelease.ofFile situation.osFile with
    | error failure =>
      rw [hfile] at hrest
      obtain ⟨rfl, rfl, rfl⟩ := hrest
      have hrefusal : situation.refusal? request = some failure := by
        simp [Situation.refusal?, hos, hfile]
      exact .inl ⟨failure, hrefusal, rfl, rfl, List.forall_mem_singleton.mpr rfl⟩
    | ok name =>
      simp only [hfile] at hrest
      split at hrest
      next hsame =>
        -- the OS is there already, so the Kubernetes step is all that remains
        have hdiffers : situation.differs request = false := by
          simp [Situation.differs, hfile, hsame]
        have hrefusal : situation.refusal? request = none := by
          simp [Situation.refusal?, hfile, hsame]
        rw [Situation.prescribed, hdiffers]
        exact .inr ⟨hrefusal, .look rfl rfl (performs_of_kubernetes_step hrest)⟩
      next hother =>
        have hdiffers : situation.differs request = true := by
          simp [Situation.differs, hos, hfile, hother]
        split at hrest
        next hurl =>
          obtain ⟨rfl, hresult, rfl⟩ := Course.done_done hrest
          refine .inl ⟨_, ?_, hresult.symm, rfl, List.forall_mem_singleton.mpr rfl⟩
          simp [Situation.refusal?, hos, hfile, hother, hurl]
        next hurl =>
          have hrefusal : situation.refusal? request = none := by
            simp [Situation.refusal?, hfile, hurl]
          -- a reboot ends the request, without a stamp
          simp only [bind_assoc] at hrest
          rw [Situation.prescribed, hdiffers]
          refine .inr ⟨hrefusal, .look rfl rfl (performs_of_command hrest fun _ hcourse => ?_)⟩
          refine performs_of_command hcourse fun _ hcourse => ?_
          obtain ⟨rfl, rfl, rfl⟩ := Course.done_done hcourse
          exact .through

end Course

theorem Follows.of_refusal {failure : Failure}
    (hrefusal : situation.refusal? request = some failure)
    (hquiet : ∀ e ∈ events, e.command? = none) :
    Follows situation dir request stamps events stamps (.error failure) := by
  have hnone : commands events = [] := List.filterMap_eq_nil_iff.mpr hquiet
  exact {
    runs := hnone ▸ List.nil_prefix
    stops := by simp [hnone]
    refuses := by simp [hnone, hrefusal]
    finishes := nofun
    fails := by
      rintro _ ⟨⟩
      exact .inl hrefusal
    apart := by simp [hnone]
    keeps := fun _ => rfl
    stamps_eq := fun _ => by simp }

theorem Follows.of_performs (hrefusal : situation.refusal? request = none)
    (h : Performs situation dir (Stamp.path dir request.kubeVersion) stamps
      (!situation.differs request && Situation.unstamped dir request stamps)
      (situation.prescribed dir request stamps) events stamps' result) :
    Follows situation dir request stamps events stamps' result where
  runs := h.isPrefix
  stops _ _ _ _ hcommands hfailed := h.stops hcommands hfailed
  refuses := by simp [hrefusal]
  finishes := by
    rintro rfl
    exact h.finishes
  fails := by
    rintro failure rfl
    exact .inr h.fails
  apart := by
    rintro ⟨⟨command, hcommand, hostree⟩, other, hother, hkubeadm⟩
    have hprescribed := h.isPrefix.subset
    cases hdiffers : situation.differs request with
    | true => exact Situation.program_of_differs hdiffers other (hprescribed hother) hkubeadm
    | false => exact (Situation.program_of_same hdiffers command (hprescribed hcommand)).1 hostree
  keeps := by
    rintro (hfailed | ⟨failure, hfailure⟩ | hreboot)
    · exact h.keeps (.inr hfailed)
    · rw [hrefusal] at hfailure
      cases hfailure
    · refine h.keeps (.inl ?_)
      cases hdiffers : situation.differs request with
      | true => rfl
      | false => exact absurd rfl (Situation.program_of_same hdiffers _ (h.isPrefix.subset hreboot)).2
  stamps_eq := by
    intro hfault
    rw [h.stamps_eq hfault]
    refine if_congr (and_congr_right ?_) rfl rfl
    rintro rfl
    rw [h.finishes, Situation.kubeadmVersion_mem_prescribed]

/-- Where the operations on the stamps succeed, every request is carried out to its end. -/
theorem exists_course (situation : Situation) (dir : String) (request : PushRequest)
    (stamps : Finset String) : ∃ ms stamps' result, Course situation.host stamps
      (upgrade dir request).run ms stamps' (.done result) ∧
      ∀ e ∈ ms.map Moment.event, e.fault? = none := by
  have hanswer : ∀ (stamps : Finset String) c, ∃ answer stamps',
      (situation.host.limited fun e => e.fault? = none).Serves stamps c answer stamps' := by
    intro stamps c
    cases c with
    | osRelease => exact ⟨_, _, ⟨rfl, rfl⟩, rfl⟩
    | run command => exact ⟨_, _, ⟨rfl, rfl⟩, rfl⟩
    | fileExists path => exact ⟨_, _, ⟨rfl, .inl rfl⟩, rfl⟩
    | makeDirectories path => exact ⟨Except.ok (), _, rfl, rfl⟩
    | writeTime path => exact ⟨Except.ok (), _, .inl rfl, rfl⟩
  obtain ⟨ms, stamps', result, hcourse, -⟩ :=
    Permits.of_answered hanswer (upgrade dir request).run stamps
  refine ⟨ms, stamps', result, hcourse.weaken (·.1) id, ?_⟩
  rintro e he
  obtain ⟨m, hm, rfl⟩ := List.mem_map.mp he
  exact (hcourse.serves m hm).2

/-- What the agent does with a request, in every situation. -/
theorem upgrade_follows (situation : Situation) (dir : String) (request : PushRequest)
    (stamps : Finset String) :
    (∃ ms stamps' result, Course situation.host stamps (upgrade dir request).run ms stamps'
      (.done result) ∧ ∀ e ∈ ms.map Moment.event, e.fault? = none) ∧
    ∀ ms stamps' result, Course situation.host stamps (upgrade dir request).run ms stamps'
      (.done result) →
        Follows situation dir request stamps (ms.map Moment.event) stamps' result := by
  refine ⟨exists_course situation dir request stamps, fun ms stamps' result hcourse => ?_⟩
  rcases refused_or_performs hcourse with
    ⟨failure, hrefusal, rfl, rfl, hquiet⟩ | ⟨hrefusal, hperforms⟩
  · exact .of_refusal hrefusal hquiet
  · exact .of_performs hrefusal hperforms

section Sample

/-- kubeadm cannot apply the version that the request asks for. -/
def drainedSituation : Situation where
  osFile := osFile
  results command :=
    if command = .kubeadmUpgrade "v1.29.1" true then .error drained else .ok "v1.28.0\n"

theorem course_drained : ∃ ms, Course drainedSituation.host ∅ (upgrade "/run" versionRequest).run ms
    ∅ (.done (.error drained)) ∧
    commands (ms.map Moment.event) =
      [.kubeadmVersion, .restartKubelet, .kubeadmUpgrade "v1.29.1" true] := by
  have hmissing : drainedSituation.host.Serves ∅ (.fileExists versionStamp) (Except.ok false) ∅ :=
    ⟨rfl, .inl rfl⟩
  have hrun : ∀ command, drainedSituation.host.Serves ∅ (.run command)
      (drainedSituation.results command) ∅ := fun command => ⟨rfl, rfl⟩
  have hcourse : Course drainedSituation.host ∅ (upgradeKubernetes "/run" versionRequest).run _ ∅
      (.done (.error drained)) :=
    .call hmissing (.call (hrun .kubeadmVersion) (.call (hrun .restartKubelet)
      (.call (hrun (.kubeadmUpgrade "v1.29.1" true)) (.stay ∅ _))))
  exact ⟨_, course_passedOs (by decide) ofFile_osFile ⟨rfl, rfl⟩ hcourse, rfl⟩

/-- The request runs all three commands, fails with the last one and leaves no stamp. -/
theorem upgrade_follows_drained : ∃ events,
    commands events = [.kubeadmVersion, .restartKubelet, .kubeadmUpgrade "v1.29.1" true] ∧
    Follows drainedSituation "/run" versionRequest ∅ events ∅ (.error drained) := by
  obtain ⟨ms, hcourse, hcommands⟩ := course_drained
  exact ⟨_, hcommands, (upgrade_follows drainedSituation "/run" versionRequest ∅).2 ms ∅ _ hcourse⟩

end Sample

end Agent

end NodeRollout
