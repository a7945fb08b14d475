import Mathlib.Data.List.Nodup
import Mathlib.Logic.Function.Basic
import NodeRollout.Agent.Turns
import NodeRollout.Proofs.Transcript

/-! Any number of calls at one agent. They run in turn: what they ask of the host is what one call
after the other would ask, in the order in which they took their turns. A version whose stamp is
kept is therefore applied once, since a call looks for the stamp and leaves it in one turn. -/
namespace NodeRollout

open Program

variable {ι σ : Type}

/-- An agent: its host, whose turn it is, and what is left of each call. -/
structure Desk (ι σ : Type) where
  host : σ
  turn : Option ι
  calls : ι → Program AgentWorld (Except Failure Unit)

/-- What one of the calls does. -/
inductive Act (ι σ : Type) where
  | took (who : ι)
  | asked (who : ι) (moment : Moment Host σ)
  | ended (who : ι)

namespace Act

def took? : Act ι σ → Option ι
  | .took who => some who
  | _ => none

def asked? : Act ι σ → Option (ι × Moment Host σ)
  | .asked who moment => some (who, moment)
  | _ => none

end Act

/-- The calls in the order in which they took their turns. -/
def turns (acts : List (Act ι σ)) : List ι := acts.filterMap Act.took?

/-- What was asked of the host, and by which call. -/
def hostCalls (acts : List (Act ι σ)) : List (ι × Moment Host σ) := acts.filterMap Act.asked?

namespace Desk

/-- Others change the host, or one of the calls goes on. Only a turn has to be waited for: nothing
here keeps a call from asking the host out of turn. -/
inductive Step [DecidableEq ι] (E : Setting Host σ) :
    Desk ι σ → List (Act ι σ) → Desk ι σ → Prop where
  | others {d : Desk ι σ} {host : σ} (change : E.Others d.host host) : Step E d [] { d with host }
  | take {d : Desk ι σ} {i : ι} {next : Unit → Program AgentWorld (Except Failure Unit)}
      (call : d.calls i = .ask .takeTurn next) (free : d.turn = none) :
      Step E d [.took i] { d with turn := some i, calls := Function.update d.calls i (next ()) }
  | host {d : Desk ι σ} {i : ι} {c : HostCall} {answer : c.Answer} {host : σ}
      {next : c.Answer → Program AgentWorld (Except Failure Unit)}
      (call : d.calls i = .ask (.host c) next) (serves : E.Serves d.host c answer host) :
      Step E d [.asked i ⟨d.host, ⟨c, answer⟩, host⟩]
        { d with host, calls := Function.update d.calls i (next answer) }
  | leave {d : Desk ι σ} {i : ι} {next : Unit → Program AgentWorld (Except Failure Unit)}
      (call : d.calls i = .ask .endTurn next) :
      Step E d [.ended i] { d with turn := none, calls := Function.update d.calls i (next ()) }

/-- The steps from one desk to another, in any order. -/
inductive Run [DecidableEq ι] (E : Setting Host σ) (d : Desk ι σ) :
    List (Act ι σ) → Desk ι σ → Prop where
  | start : Run E d [] d
  | step {acts new : List (Act ι σ)} {t u : Desk ι σ} (before : Run E d acts t)
      (last : Step E t new u) : Run E d (acts ++ new) u

end Desk

namespace Agent

variable {E : Setting Host σ} {dir : String} {requests : ι → PushRequest} {s t : σ}
  {served : List (ι × Except Failure Unit)} {moments : List (ι × Moment Host σ)}

/-- What is left of a call in its turn. -/
def finish (p : Program Host (Except Failure Unit)) : Program AgentWorld (Except Failure Unit) := do
  let result ← onHost p
  Program.call (I := AgentWorld) .endTurn
  return result

theorem handle_eq (dir : String) (request : PushRequest) :
    handle dir request = .ask .takeTurn fun _ => finish (upgrade dir request).run := rfl

/-- A call in its turn asks the host for what the upgrade asks. -/
theorem ask_of_finish {p : Program Host (Except Failure Unit)} {c : HostCall}
    {next : c.Answer → Program AgentWorld (Except Failure Unit)}
    (h : finish p = .ask (.host c) next) :
    ∃ rest : c.Answer → Program Host (Except Failure Unit), p = .ask c rest ∧
      ∀ answer, next answer = finish (rest answer) := by
  cases p with
  | done result => cases h
  | ask c' rest =>
    have hask : Program.ask (I := AgentWorld) (.host c') (fun answer => finish (rest answer)) =
        .ask (.host c) next := h
    injection hask with hc hnext
    injection hc with hc
    subst hc
    exact ⟨rest, rfl, fun answer => (congrFun (eq_of_heq hnext) answer).symm⟩

/-- A call leaves its turn when the upgrade is done. -/
theorem done_of_finish {p : Program Host (Except Failure Unit)}
    {next : Unit → Program AgentWorld (Except Failure Unit)}
    (h : finish p = .ask .endTurn next) : ∃ result, p = .done result ∧ next () = .done result := by
  cases p with
  | ask c rest => cases h
  | done result =>
    have hask : Program.ask (I := AgentWorld) .endTurn (fun _ => .done result) =
        .ask .endTurn next := h
    injection hask with _ hnext
    exact ⟨result, rfl, (congrFun hnext ()).symm⟩

theorem finish_ne_done (p : Program Host (Except Failure Unit)) (result : Except Failure Unit) :
    finish p ≠ .done result := by
  cases p <;> nofun

/-- Calls that are served one after the other, each without any other call in between. -/
inductive Serial (E : Setting Host σ) (dir : String) (requests : ι → PushRequest) (s : σ) :
    List (ι × Except Failure Unit) → List (ι × Moment Host σ) → σ → Prop where
  | start : Serial E dir requests s [] [] s
  | others {served : List (ι × Except Failure Unit)} {moments : List (ι × Moment Host σ)} {t u : σ}
      (before : Serial E dir requests s served moments t) (change : E.Others t u) :
      Serial E dir requests s served moments u
  | next {served : List (ι × Except Failure Unit)} {moments : List (ι × Moment Host σ)} {t u : σ}
      {i : ι} {ms : List (Moment Host σ)} {result : Except Failure Unit}
      (before : Serial E dir requests s served moments t)
      (course : Course E t (upgrade dir (requests i)).run ms u (.done result)) :
      Serial E dir requests s (served ++ [(i, result)]) (moments ++ ms.map (i, ·)) u

/-- A call that has not begun, or that is served. -/
def Outside (dir : String) (requests : ι → PushRequest) (served : List (ι × Except Failure Unit))
    (calls : ι → Program AgentWorld (Except Failure Unit)) (i : ι) : Prop :=
  calls i = handle dir (requests i) ∧ i ∉ served.map Prod.fst ∨
    ∃ result, calls i = .done result ∧ (i, result) ∈ served

namespace Outside

variable {calls : ι → Program AgentWorld (Except Failure Unit)} {i j : ι}

theorem update [DecidableEq ι] (h : Outside dir requests served calls j) (hne : j ≠ i)
    (p : Program AgentWorld (Except Failure Unit)) :
    Outside dir requests served (Function.update calls i p) j := by
  rw [Outside, Function.update_of_ne hne]
  exact h

/-- Only a call that has not begun asks for anything. -/
theorem of_ask {c : AgentCall} {next : c.Answer → Program AgentWorld (Except Failure Unit)}
    (h : Outside dir requests served calls i) (hcall : calls i = .ask c next) :
    calls i = handle dir (requests i) ∧ i ∉ served.map Prod.fst := by
  rcases h with hbegun | ⟨result, hdone, -⟩
  · exact hbegun
  · rw [hcall] at hdone
    cases hdone

/-- It asks for its turn. -/
theorem takes {c : AgentCall} {next : c.Answer → Program AgentWorld (Except Failure Unit)}
    (h : Outside dir requests served calls i) (hcall : calls i = .ask c next) : c = .takeTurn := by
  obtain ⟨hbegun, -⟩ := h.of_ask hcall
  rw [hcall, handle_eq] at hbegun
  injection hbegun

theorem done_iff {result : Except Failure Unit} (h : Outside dir requests served calls i)
    (once : (served.map Prod.fst).Nodup) : calls i = .done result ↔ (i, result) ∈ served := by
  rcases h with ⟨hbegun, hnew⟩ | ⟨result', hdone, hserved⟩
  · rw [hbegun, handle_eq]
    exact iff_of_false nofun fun hmem => hnew (List.mem_map_of_mem hmem)
  · rw [hdone]
    constructor
    · intro heq
      injection heq with heq
      exact heq ▸ hserved
    · intro hmem
      have heq : (i, result') = (i, result) := List.inj_on_of_nodup_map once hserved hmem rfl
      rw [(Prod.mk.inj heq).2]

theorem concat {result : Except Failure Unit} (h : Outside dir requests served calls j)
    (hne : j ≠ i) : Outside dir requests (served ++ [(i, result)]) calls j := by
  rcases h with ⟨hbegun, hnew⟩ | ⟨result', hdone, hserved⟩
  · exact .inl ⟨hbegun, by simpa [hne] using hnew⟩
  · exact .inr ⟨result', hdone, List.mem_append_left _ hserved⟩

end Outside

/-- What holds of a desk after these acts. Some calls were served one after the other in the order
of their turns; nobody has the turn, or one more call has it and is under way. -/
inductive InTurn (E : Setting Host σ) (dir : String) (requests : ι → PushRequest) (s : σ)
    (acts : List (Act ι σ)) (d : Desk ι σ) (served : List (ι × Except Failure Unit)) : Prop where
  | free (once : (served.map Prod.fst).Nodup) (turn : d.turn = none)
      (order : turns acts = served.map Prod.fst)
      (serial : Serial E dir requests s served (hostCalls acts) d.host)
      (calls : ∀ j, Outside dir requests served d.calls j)
  | taken {i : ι} {moments : List (ι × Moment Host σ)} {t : σ} {ms : List (Moment Host σ)}
      {p : Program Host (Except Failure Unit)} (once : (served.map Prod.fst).Nodup)
      (turn : d.turn = some i) (order : turns acts = served.map Prod.fst ++ [i])
      (new : i ∉ served.map Prod.fst) (serial : Serial E dir requests s served moments t)
      (course : Course E t (upgrade dir (requests i)).run ms d.host p)
      (asked : hostCalls acts = moments ++ ms.map (i, ·)) (call : d.calls i = finish p)
      (calls : ∀ j, j ≠ i → Outside dir requests served d.calls j)

namespace InTurn

variable {acts new : List (Act ι σ)} {d u : Desk ι σ} {i : ι}

theorem start (hturn : d.turn = none) (hcalls : ∀ i, d.calls i = handle dir (requests i)) :
    InTurn E dir requests d.host [] d [] :=
  .free List.nodup_nil hturn rfl .start fun j => .inl ⟨hcalls j, List.not_mem_nil⟩

theorem others (h : InTurn E dir requests s acts d served) {host : σ}
    (change : E.Others d.host host) : InTurn E dir requests s acts { d with host } served := by
  cases h with
  | free once turn order serial calls => exact .free once turn order (serial.others change) calls
  | taken once turn order new serial course asked call calls =>
    have hcourse := course.trans (.others change (.stay host _))
    rw [List.append_nil] at hcourse
    exact .taken once turn order new serial hcourse asked call calls

theorem turns_append (acts new : List (Act ι σ)) : turns (acts ++ new) = turns acts ++ turns new :=
  List.filterMap_append

theorem hostCalls_append (acts new : List (Act ι σ)) :
    hostCalls (acts ++ new) = hostCalls acts ++ hostCalls new := List.filterMap_append

variable [DecidableEq ι]

theorem take (h : InTurn E dir requests s acts d served)
    {next : Unit → Program AgentWorld (Except Failure Unit)}
    (hcall : d.calls i = .ask .takeTurn next) (hfree : d.turn = none) :
    InTurn E dir requests s (acts ++ [.took i])
      { d with turn := some i, calls := Function.update d.calls i (next ()) } served := by
  cases h with
  | taken once turn => simp [hfree] at turn
  | free once turn order serial calls =>
    obtain ⟨hbegun, hnew⟩ := (calls i).of_ask hcall
    rw [hcall, handle_eq] at hbegun
    injection hbegun with _ hnext
    refine .taken once rfl ?_ hnew serial (.stay _ _) ?_ ?_ fun j hne => (calls j).update hne _
    · rw [turns_append, order]
      rfl
    · rw [hostCalls_append]
      rfl
    · rw [show next = _ from hnext]
      exact Function.update_self ..

theorem host (h : InTurn E dir requests s acts d served) {c : HostCall} {answer : c.Answer}
    {host : σ} {next : c.Answer → Program AgentWorld (Except Failure Unit)}
    (hcall : d.calls i = .ask (.host c) next) (hserves : E.Serves d.host c answer host) :
    InTurn E dir requests s (acts ++ [.asked i ⟨d.host, ⟨c, answer⟩, host⟩])
      { d with host, calls := Function.update d.calls i (next answer) } served := by
  cases h with
  | free once turn order serial calls => cases (calls i).takes hcall
  | @taken k moments t ms p once turn order new serial course asked call calls =>
    -- only the call that has the turn asks the host
    obtain rfl : i = k := by
      by_contra hne
      cases (calls i hne).takes hcall
    obtain ⟨rest, rfl, hnext⟩ := ask_of_finish (call.symm.trans hcall)
    have hcourse := course.trans (.call hserves (.stay host (rest answer)))
    refine .taken once turn ?_ new serial hcourse ?_ ?_ fun j hne => (calls j hne).update hne _
    · rw [turns_append, order]
      exact List.append_nil _
    · rw [hostCalls_append, asked, List.append_assoc, List.map_append]
      rfl
    · rw [← hnext answer]
      exact Function.update_self ..

/-- A call that leaves its turn is served. -/
theorem leave (h : InTurn E dir requests s acts d served)
    {next : Unit → Program AgentWorld (Except Failure Unit)}
    (hcall : d.calls i = .ask .endTurn next) :
    ∃ served', InTurn E dir requests s (acts ++ [.ended i])
      { d with turn := none, calls := Function.update d.calls i (next ()) } served' := by
  cases h with
  | free once turn order serial calls => cases (calls i).takes hcall
  | @taken k moments t ms p once turn order new serial course asked call calls =>
    obtain rfl : i = k := by
      by_contra hne
      cases (calls i hne).takes hcall
    obtain ⟨result, rfl, hnext⟩ := done_of_finish (call.symm.trans hcall)
    refine ⟨served ++ [(i, result)], .free ?_ rfl ?_ ?_ fun j => ?_⟩
    · rw [List.map_append]
      exact List.nodup_append_comm.mp (List.nodup_cons.mpr ⟨new, once⟩)
    · rw [turns_append, order, List.map_append]
      exact List.append_nil _
    · rw [hostCalls_append, asked]
      exact (List.append_nil _).symm ▸ serial.next course
    · by_cases hne : j = i
      · subst hne
        refine .inr ⟨result, ?_, by simp⟩
        rw [← hnext]
        exact Function.update_self ..
      · exact ((calls j hne).update hne _).concat hne

theorem step (h : InTurn E dir requests s acts d served) (hstep : Desk.Step E d new u) :
    ∃ served', InTurn E dir requests s (acts ++ new) u served' := by
  cases hstep with
  | others change =>
    rw [List.append_nil]
    exact ⟨served, h.others change⟩
  | take call free => exact ⟨served, h.take call free⟩
  | host call serves => exact ⟨served, h.host call serves⟩
  | leave call => exact h.leave call

theorem run (hturn : d.turn = none) (hcalls : ∀ i, d.calls i = handle dir (requests i))
    (hrun : Desk.Run E d acts u) : ∃ served, InTurn E dir requests d.host acts u served := by
  -- induction over the steps; which calls were served is found on the way
  induction hrun with
  | start => exact ⟨[], start hturn hcalls⟩
  | step _ last ih =>
    obtain ⟨served, hbefore⟩ := ih
    exact hbefore.step last

omit [DecidableEq ι] in
/-- The served calls are those that ended, with their results. -/
theorem done_iff (h : InTurn E dir requests s acts d served) (result : Except Failure Unit) :
    d.calls i = .done result ↔ (i, result) ∈ served := by
  cases h with
  | free once _ _ _ calls => exact (calls i).done_iff once
  | @taken k _ _ _ p once _ _ new _ _ _ call calls =>
    by_cases hne : i = k
    · subst hne
      rw [call]
      exact iff_of_false (finish_ne_done p result) fun hmem => new (List.mem_map_of_mem hmem)
    · exact (calls i hne).done_iff once

end InTurn

/-- Between two equal entries stand only entries equal to them. -/
def Grouped (labels : List ι) : Prop := ∀ i j, [i, j, i].Sublist labels → j = i

theorem Grouped.append {labels block : List ι} {k : ι} (h : Grouped labels)
    (hblock : ∀ x ∈ block, x = k) (hnew : k ∉ labels) : Grouped (labels ++ block) := by
  intro i j hsub
  obtain ⟨before, after, heq, hbefore, hafter⟩ := List.sublist_append_iff.mp hsub
  rcases List.eq_nil_or_concat after with rfl | ⟨rest, last, rfl⟩
  · rw [List.append_nil] at heq
    exact h i j (heq ▸ hbefore)
  · -- the last entry is in the block, so the first one is not before it
    have hlast : i = last := by
      have := congrArg List.getLast? heq
      simpa [← List.append_assoc] using this
    obtain rfl : i = k := hlast ▸ hblock last (hafter.subset (by simp))
    cases before with
    | nil =>
      rw [List.nil_append] at heq
      exact hblock j (hafter.subset (heq ▸ by simp))
    | cons first _ =>
      obtain rfl : i = first := (List.cons.inj heq).1
      exact absurd (hbefore.subset List.mem_cons_self) hnew

theorem fst_of_mem_block {ms : List (Moment Host σ)} {k : ι} :
    ∀ i ∈ (ms.map (k, ·)).map Prod.fst, i = k := by
  intro i hi
  rw [List.map_map] at hi
  obtain ⟨m, -, rfl⟩ := List.mem_map.mp hi
  rfl

namespace Serial

theorem mem_served (h : Serial E dir requests s served moments t) :
    ∀ i ∈ moments.map Prod.fst, i ∈ served.map Prod.fst := by
  induction h with
  | start => simp
  | others _ _ ih => exact ih
  | @next served moments t u k ms result _ _ ih =>
    intro i hi
    rw [List.map_append, List.mem_append] at hi ⊢
    rcases hi with hi | hi
    · exact .inl (ih i hi)
    · exact .inr (by simp [fst_of_mem_block i hi])

theorem grouped (h : Serial E dir requests s served moments t)
    (once : (served.map Prod.fst).Nodup) : Grouped (moments.map Prod.fst) := by
  induction h with
  | start => exact fun i j hsub => by simp at hsub
  | others _ _ ih => exact ih once
  | @next served moments t u k ms result before _ ih =>
    -- a call is served once, so its block is a new label
    rw [List.map_append] at once ⊢
    obtain ⟨hnew, hfirst⟩ := List.nodup_cons.mp (List.nodup_append_comm.mp once)
    exact (ih hfirst).append fst_of_mem_block fun hk => hnew (before.mem_served k hk)

end Serial

theorem InTurn.grouped {acts : List (Act ι σ)} {d : Desk ι σ}
    (h : InTurn E dir requests s acts d served) : Grouped ((hostCalls acts).map Prod.fst) := by
  cases h with
  | free once _ _ serial _ => exact serial.grouped once
  | @taken k moments t ms p once _ _ new serial _ asked _ _ =>
    rw [asked, List.map_append]
    exact (serial.grouped once).append fst_of_mem_block fun hk => new (serial.mem_served k hk)

end Agent

end NodeRollout
