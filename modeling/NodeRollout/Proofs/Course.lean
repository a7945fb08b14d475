import Mathlib.Logic.Relation
import NodeRollout.Program

/-! Programs among others. A program makes one call at a time, and between two calls others may
change the state. A `Course` is such a run, up to its end or to where it was abandoned. `Assures`
is the rule to reason about all of them: under what others may do, every call of the program
satisfies a guarantee, and the end a postcondition. -/
namespace NodeRollout

section Laws

variable {I : Interface} {α β γ : Type}

theorem Program.andThen_done (p : Program I α) : p.andThen .done = p := by
  induction p with
  | done a => rfl
  | ask c next ih => exact congrArg (Program.ask c) (funext ih)

theorem Program.andThen_assoc (p : Program I α) (f : α → Program I β) (g : β → Program I γ) :
    (p.andThen f).andThen g = p.andThen fun a => (f a).andThen g := by
  induction p with
  | done a => rfl
  | ask c next ih => exact congrArg (Program.ask c) (funext ih)

instance : LawfulMonad (Program I) :=
  LawfulMonad.mk' (Program I) Program.andThen_done (fun _ _ => rfl) Program.andThen_assoc

end Laws

/-- The surroundings of a program that shares a state of type `σ`. -/
structure Setting (I : Interface) (σ : Type) where
  /-- How a call may be answered, and the state that it leaves. -/
  Serves : σ → (c : I.Call) → I.Answer c → σ → Prop
  /-- What others may do to the state between two calls. -/
  Others : σ → σ → Prop
  idle : ∀ s, Others s s
  chain : ∀ {s t u}, Others s t → Others t u → Others s u

/-- The setting, as far as its answers satisfy `ok`. -/
def Setting.limited {I : Interface} {σ : Type} (E : Setting I σ) (ok : Program.Event I → Prop) :
    Setting I σ where
  Serves s c answer t := E.Serves s c answer t ∧ ok ⟨c, answer⟩
  Others := E.Others
  idle := E.idle
  chain := E.chain

/-- A call as it was served. -/
structure Moment (I : Interface) (σ : Type) where
  before : σ
  event : Program.Event I
  after : σ

variable {I : Interface} {σ α β ε : Type}

/-- From the first state and program the second ones may be reached by these calls. -/
inductive Course (E : Setting I σ) :
    σ → Program I α → List (Moment I σ) → σ → Program I α → Prop where
  | stay (s : σ) (p : Program I α) : Course E s p [] s p
  | others {s s' t : σ} {p q : Program I α} {ms : List (Moment I σ)}
      (step : E.Others s s') (rest : Course E s' p ms t q) : Course E s p ms t q
  | call {s s' t : σ} {c : I.Call} {next : I.Answer c → Program I α} {q : Program I α}
      {ms : List (Moment I σ)} {answer : I.Answer c}
      (step : E.Serves s c answer s') (rest : Course E s' (next answer) ms t q) :
      Course E s (.ask c next) (⟨s, ⟨c, answer⟩, s'⟩ :: ms) t q

namespace Course

variable {E : Setting I σ} {s t : σ} {ms : List (Moment I σ)} {a b : α}

theorem ask_done {c : I.Call} {next : I.Answer c → Program I α}
    (h : Course E s (.ask c next) ms t (.done a)) :
    ∃ s' answer s'' rest, E.Others s s' ∧ E.Serves s' c answer s'' ∧
      ms = ⟨s', ⟨c, answer⟩, s''⟩ :: rest ∧ Course E s'' (next answer) rest t (.done a) := by
  -- the induction is on the run, so its two ends have to be variables
  generalize hp : Program.ask c next = p at h
  generalize hq : Program.done a = q at h
  induction h with
  | stay s p =>
    subst hp
    cases hq
  | others step _ ih =>
    obtain ⟨s', answer, s'', rest, ho, hs, hms, hrest⟩ := ih hp hq
    exact ⟨s', answer, s'', rest, E.chain step ho, hs, hms, hrest⟩
  | @call s s' t c' next' q ms answer step rest ih =>
    cases hp
    subst hq
    exact ⟨s, answer, s', ms, E.idle s, step, rfl, rest⟩

theorem done_done (h : Course E s (.done a) ms t (.done b)) : ms = [] ∧ a = b ∧ E.Others s t := by
  generalize hp : Program.done a = p at h
  generalize hq : Program.done b = q at h
  induction h with
  | stay s p =>
    subst hp
    cases hq
    exact ⟨rfl, rfl, E.idle s⟩
  | others step _ ih =>
    obtain ⟨hms, hab, ho⟩ := ih hp hq
    exact ⟨hms, hab, E.chain step ho⟩
  | call => cases hp

theorem trans {ms' : List (Moment I σ)} {u : σ} {p q r : Program I α} (h : Course E s p ms t q)
    (h' : Course E t q ms' u r) : Course E s p (ms ++ ms') u r := by
  induction h with
  | stay s p => exact h'
  | others step _ ih => exact .others step (ih h')
  | call step _ ih => exact .call step (ih h')

/-- A run of the first part of a program, with what is to follow it. -/
theorem bind {p q : Program I α} (h : Course E s p ms t q) (f : α → Program I β) :
    Course E s (p >>= f) ms t (q >>= f) := by
  induction h with
  | stay s p => exact .stay s _
  | others step _ ih => exact .others step ih
  | call step _ ih => exact .call step ih

/-- A run among quieter others, on a store that answers in fewer ways. -/
theorem weaken {E' : Setting I σ} {p q : Program I α} (h : Course E s p ms t q)
    (hserves : ∀ {s c answer t}, E.Serves s c answer t → E'.Serves s c answer t)
    (hothers : ∀ {s t}, E.Others s t → E'.Others s t) : Course E' s p ms t q := by
  induction h with
  | stay s p => exact .stay s p
  | others step _ ih => exact .others (hothers step) ih
  | call step _ ih => exact .call (hserves step) ih

theorem limited {ok : Program.Event I → Prop} {p q : Program I α} (h : Course E s p ms t q)
    (hok : ∀ m ∈ ms, ok m.event) : Course (E.limited ok) s p ms t q := by
  induction h with
  | stay s p => exact .stay s p
  | others step _ ih => exact .others step (ih hok)
  | call step _ ih =>
    obtain ⟨hcall, hrest⟩ := List.forall_mem_cons.mp hok
    exact .call ⟨step, hcall⟩ (ih hrest)

theorem serves {p q : Program I α} (h : Course E s p ms t q) :
    ∀ m ∈ ms, E.Serves m.before m.event.call m.event.answer m.after := by
  induction h with
  | stay s p => simp
  | others _ _ ih => exact ih
  | call step _ ih => exact List.forall_mem_cons.mpr ⟨step, ih⟩

theorem chain {R : σ → σ → Prop} {p q : Program I α} (h : Course E s p ms t q)
    (hothers : ∀ {s t}, E.Others s t → R s t) (hcalls : ∀ m ∈ ms, R m.before m.after) :
    Relation.ReflTransGen R s t := by
  induction h with
  | stay s p => exact .refl
  | others step _ ih => exact .head (hothers step) (ih hcalls)
  | call step _ ih =>
    obtain ⟨hcall, hrest⟩ := List.forall_mem_cons.mp hcalls
    exact .head hcall (ih hrest)

/-- What others and every call keep, the run keeps. -/
theorem preserves {K : σ → Prop} {p q : Program I α} (h : Course E s p ms t q)
    (hothers : ∀ {s t}, E.Others s t → K s → K t) (hcalls : ∀ m ∈ ms, K m.before → K m.after)
    (hs : K s) : K t := by
  have hchain := h.chain (R := fun s t => K s → K t) hothers hcalls
  clear h
  induction hchain with
  | refl => exact hs
  | tail _ hstep ih => exact hstep ih

end Course

/-- What a call leaves stands in this relation to what it found. -/
abbrev across (R : σ → σ → Prop) (m : Moment I σ) : Prop := R m.before m.after

/-- However others interfere, every call of the program satisfies `G`, and its end satisfies `Q`. -/
def Assures (E : Setting I σ) (G : Moment I σ → Prop) :
    Program I α → (σ → α → Prop) → σ → Prop
  | .done a, Q, s => ∀ s', E.Others s s' → Q s' a
  | .ask c next, Q, s => ∀ s', E.Others s s' → ∀ answer s'', E.Serves s' c answer s'' →
      G ⟨s', ⟨c, answer⟩, s''⟩ ∧ Assures E G (next answer) Q s''

namespace Assures

variable {E : Setting I σ} {G : Moment I σ → Prop} {p q : Program I α} {Q Q' : σ → α → Prop}
  {s t : σ}

theorem others (h : Assures E G p Q s) (step : E.Others s t) : Assures E G p Q t := by
  cases p with
  | done a => exact fun u hu => h u (E.chain step hu)
  | ask c next => exact fun u hu => h u (E.chain step hu)

theorem mono (h : Assures E G p Q s) (hQ : ∀ s a, Q s a → Q' s a) : Assures E G p Q' s := by
  induction p generalizing s with
  | done a => exact fun u hu => hQ u a (h u hu)
  | ask c next ih =>
    intro u hu answer v hv
    obtain ⟨hG, hrest⟩ := h u hu answer v hv
    exact ⟨hG, ih answer hrest⟩

theorem done {a : α} (h : ∀ t, E.Others s t → Q t a) : Assures E G (.done a) Q s := h

theorem ask {c : I.Call} {next : I.Answer c → Program I α}
    (h : ∀ t, E.Others s t → ∀ answer u, E.Serves t c answer u →
      G ⟨t, ⟨c, answer⟩, u⟩ ∧ Assures E G (next answer) Q u) : Assures E G (.ask c next) Q s := h

theorem call {c : I.Call} {f : I.Answer c → Program I β} {R : σ → β → Prop}
    (h : ∀ t, E.Others s t → ∀ answer u, E.Serves t c answer u →
      G ⟨t, ⟨c, answer⟩, u⟩ ∧ Assures E G (f answer) R u) :
    Assures E G (Program.call c >>= f) R s := h

theorem bind {f : α → Program I β} {R : σ → β → Prop}
    (h : Assures E G p (fun s a => Assures E G (f a) R s) s) : Assures E G (p >>= f) R s := by
  induction p generalizing s with
  | done a => exact h s (E.idle s)
  | ask c next ih =>
    intro u hu answer v hv
    obtain ⟨hG, hrest⟩ := h u hu answer v hv
    exact ⟨hG, ih answer hrest⟩

/-- A procedure followed by another one; its failure ends both. -/
theorem attempt {x : Attempt ε I α} {f : α → Attempt ε I β} {R : σ → Except ε β → Prop}
    (h : Assures E G x.run (fun s r => match r with
      | .ok a => Assures E G (f a).run R s
      | .error e => ∀ t, E.Others s t → R t (.error e)) s) :
    Assures E G (x >>= f).run R s := by
  refine bind (h.mono fun s r hr => ?_)
  cases r with
  | ok a => exact hr
  | error e => exact hr

theorem lift {f : α → Attempt ε I β} {R : σ → Except ε β → Prop}
    (h : Assures E G p (fun s a => Assures E G (f a).run R s) s) :
    Assures E G ((ExceptT.lift p : Attempt ε I α) >>= f).run R s :=
  attempt (bind (h.mono fun _ _ hf _ ht => hf.others ht))

section Calls

/-! Where nothing is asked of the end, only the calls count. -/

theorem done_true {a : α} : Assures E G (.done a) (fun _ _ => True) s := fun _ _ => trivial

theorem attempt_true {x : Attempt ε I α} {f : α → Attempt ε I β}
    (hx : Assures E G x.run (fun _ _ => True) s)
    (hf : ∀ a t, Assures E G (f a).run (fun _ _ => True) t) :
    Assures E G (x >>= f).run (fun _ _ => True) s := by
  refine attempt (hx.mono fun t r _ => ?_)
  cases r with
  | ok a => exact hf a t
  | error e => exact fun _ _ => trivial

theorem lift_true {f : α → Attempt ε I β} (hp : Assures E G p (fun _ _ => True) s)
    (hf : ∀ a t, Assures E G (f a).run (fun _ _ => True) t) :
    Assures E G ((ExceptT.lift p : Attempt ε I α) >>= f).run (fun _ _ => True) s :=
  lift (hp.mono fun t a _ => hf a t)

end Calls

/-- What was assured of a program is still assured of the rest of it, and its calls satisfied `G`.
-/
theorem course {ms : List (Moment I σ)} (h : Assures E G p Q s) (hc : Course E s p ms t q) :
    Assures E G q Q t ∧ ∀ m ∈ ms, G m := by
  induction hc with
  | stay s p => exact ⟨h, by simp⟩
  | others step _ ih => exact ih (h.others step)
  | call step _ ih =>
    obtain ⟨hG, hrest⟩ := h _ (E.idle _) _ _ step
    obtain ⟨hq, hms⟩ := ih hrest
    refine ⟨hq, ?_⟩
    intro m hm
    rcases List.mem_cons.mp hm with rfl | hm
    · exact hG
    · exact hms m hm

theorem result {ms : List (Moment I σ)} {a : α} (h : Assures E G p Q s)
    (hc : Course E s p ms t (.done a)) : Q t a :=
  (h.course hc).1 t (E.idle t)

end Assures

/-- Some complete run ends with the postcondition. -/
def Permits (E : Setting I σ) (p : Program I α) (Q : σ → α → Prop) (s : σ) : Prop :=
  ∃ ms t a, Course E s p ms t (.done a) ∧ Q t a

namespace Permits

variable {E : Setting I σ} {p : Program I α} {Q : σ → α → Prop} {s t : σ}

theorem done {a : α} (h : Q s a) : Permits E (.done a) Q s := ⟨[], s, a, .stay s _, h⟩

theorem others (step : E.Others s t) (h : Permits E p Q t) : Permits E p Q s := by
  obtain ⟨ms, u, a, hc, hQ⟩ := h
  exact ⟨ms, u, a, .others step hc, hQ⟩

theorem ask {c : I.Call} {next : I.Answer c → Program I α} (answer : I.Answer c)
    (step : E.Serves s c answer t) (h : Permits E (next answer) Q t) :
    Permits E (.ask c next) Q s := by
  obtain ⟨ms, u, a, hc, hQ⟩ := h
  exact ⟨_, u, a, .call step hc, hQ⟩

theorem bind {f : α → Program I β} {R : σ → β → Prop}
    (h : Permits E p (fun s a => Permits E (f a) R s) s) : Permits E (p >>= f) R s := by
  obtain ⟨ms, t, a, hc, hf⟩ := h
  generalize hp : Program.done a = r at hc
  induction hc with
  | stay s p =>
    subst hp
    exact hf
  | others step _ ih =>
    obtain ⟨ms, u, b, hc, hR⟩ := ih hf hp
    exact ⟨ms, u, b, .others step hc, hR⟩
  | call step _ ih =>
    obtain ⟨ms, u, b, hc, hR⟩ := ih hf hp
    exact ⟨_, u, b, .call step hc, hR⟩

theorem attempt {x : Attempt ε I α} {f : α → Attempt ε I β} {R : σ → Except ε β → Prop}
    (h : Permits E x.run (fun s r => ∃ a, r = .ok a ∧ Permits E (f a).run R s) s) :
    Permits E (x >>= f).run R s := by
  obtain ⟨ms, t, r, hc, a, rfl, hf⟩ := h
  exact bind ⟨ms, t, .ok a, hc, hf⟩

theorem lift {f : α → Attempt ε I β} {R : σ → Except ε β → Prop}
    (h : Permits E p (fun s a => Permits E (f a).run R s) s) :
    Permits E ((ExceptT.lift p : Attempt ε I α) >>= f).run R s := by
  obtain ⟨ms, t, a, hc, hf⟩ := h
  exact attempt (bind ⟨ms, t, a, hc, done ⟨a, rfl, hf⟩⟩)

/-- Where every call is answered, every program has a run to its end. -/
theorem of_answered (hanswer : ∀ s c, ∃ answer t, E.Serves s c answer t) (p : Program I α) (s : σ) :
    Permits E p (fun _ _ => True) s := by
  induction p generalizing s with
  | done a => exact done trivial
  | ask c next ih =>
    obtain ⟨answer, t, hserves⟩ := hanswer s c
    exact ask answer hserves (ih answer t)

end Permits

/-- The program returns, as far as its surroundings keep a promise on which the calls rely. They can
keep it from the state on that the last call left, and whenever they keep it the call is answered. A
program makes finitely many calls, so nothing more is to be asked for its return. -/
def Returns (E : Setting I σ) (promise : σ → I.Call → Prop) : Program I α → σ → Prop
  | .done _, _ => True
  | .ask c next, s => (∃ t, E.Others s t ∧ promise t c) ∧
      ∀ t, E.Others s t → promise t c → (∃ answer u, E.Serves t c answer u) ∧
        ∀ answer u, E.Serves t c answer u → Returns E promise (next answer) u

namespace Returns

variable {E : Setting I σ} {promise : σ → I.Call → Prop} {G : Moment I σ → Prop} {p : Program I α}
  {Q : σ → α → Prop} {s : σ}

theorem done {a : α} : Returns E promise (.done a) s := trivial

theorem ask {c : I.Call} {next : I.Answer c → Program I α} (hkept : ∃ t, E.Others s t ∧ promise t c)
    (hanswer : ∀ t, E.Others s t → promise t c → ∃ answer u, E.Serves t c answer u)
    (hnext : ∀ t, E.Others s t → ∀ answer u, E.Serves t c answer u →
      Returns E promise (next answer) u) : Returns E promise (.ask c next) s :=
  ⟨hkept, fun t ht hpromise => ⟨hanswer t ht hpromise, hnext t ht⟩⟩

/-- A call that does not rely on others. -/
theorem ask_freely {c : I.Call} {next : I.Answer c → Program I α} (hpromise : ∀ t, promise t c)
    (hanswer : ∀ t, E.Others s t → ∃ answer u, E.Serves t c answer u)
    (hnext : ∀ t, E.Others s t → ∀ answer u, E.Serves t c answer u →
      Returns E promise (next answer) u) : Returns E promise (.ask c next) s :=
  ask ⟨s, E.idle s, hpromise s⟩ (fun t ht _ => hanswer t ht) hnext

theorem call_freely {c : I.Call} {f : I.Answer c → Program I β} (hpromise : ∀ t, promise t c)
    (hanswer : ∀ t, E.Others s t → ∃ answer u, E.Serves t c answer u)
    (hnext : ∀ t, E.Others s t → ∀ answer u, E.Serves t c answer u → Returns E promise (f answer) u) :
    Returns E promise (Program.call c >>= f) s := ask_freely hpromise hanswer hnext

/-- The rest of a program returns from every state in which its first part may end. -/
theorem bind {f : α → Program I β} (hp : Returns E promise p s) (ha : Assures E G p Q s)
    (hf : ∀ t a, Q t a → Returns E promise (f a) t) : Returns E promise (p >>= f) s := by
  induction p generalizing s with
  | done a => exact hf s a (ha s (E.idle s))
  | ask c next ih =>
    obtain ⟨hkept, hcall⟩ := hp
    refine ⟨hkept, fun t ht hpromise => ?_⟩
    obtain ⟨hanswer, hrest⟩ := hcall t ht hpromise
    exact ⟨hanswer, fun answer u hu => ih answer (hrest answer u hu) (ha t ht answer u hu).2⟩

/-- A procedure followed by another one; where the first one fails, that is the end. -/
theorem attempt {x : Attempt ε I α} {f : α → Attempt ε I β} {R : σ → Except ε α → Prop}
    (hx : Returns E promise x.run s) (ha : Assures E G x.run R s)
    (hf : ∀ t a, R t (.ok a) → Returns E promise (f a).run t) :
    Returns E promise (x >>= f).run s := by
  refine bind (f := ExceptT.bindCont f) hx ha fun t r hr => ?_
  cases r with
  | ok a => exact hf t a hr
  | error e => exact done

theorem lift {f : α → Attempt ε I β} (hp : Returns E promise p s) (ha : Assures E G p Q s)
    (hf : ∀ t a, Q t a → Returns E promise (f a).run t) :
    Returns E promise ((ExceptT.lift p : Attempt ε I α) >>= f).run s := by
  rw [ExceptT.run_bind, ExceptT.run_lift, bind_map_left]
  exact bind hp ha hf

/-- What returns has a run to its end. -/
theorem permits (h : Returns E promise p s) : Permits E p (fun _ _ => True) s := by
  induction p generalizing s with
  | done a => exact .done trivial
  | ask c next ih =>
    obtain ⟨⟨t, ht, hpromise⟩, hcall⟩ := h
    obtain ⟨⟨answer, u, hserves⟩, hrest⟩ := hcall t ht hpromise
    exact .others ht (.ask answer hserves (ih answer (hrest answer u hserves)))

end Returns

/-- Some run, which may be left early, makes this call. -/
def Makes (E : Setting I σ) (p : Program I α) (m : Moment I σ) (s : σ) : Prop :=
  ∃ ms t q, Course E s p ms t q ∧ m ∈ ms

namespace Makes

variable {E : Setting I σ} {p : Program I α} {m : Moment I σ} {s t : σ}

theorem ask {c : I.Call} {next : I.Answer c → Program I α} (answer : I.Answer c)
    (step : E.Serves s c answer t) (h : Makes E (next answer) m t) : Makes E (.ask c next) m s := by
  obtain ⟨ms, u, q, hc, hm⟩ := h
  exact ⟨_, u, q, .call step hc, List.mem_cons_of_mem _ hm⟩

theorem bind (f : α → Program I β) (h : Makes E p m s) : Makes E (p >>= f) m s := by
  obtain ⟨ms, t, q, hc, hm⟩ := h
  exact ⟨ms, t, q >>= f, hc.bind f, hm⟩

theorem attempt {x : Attempt ε I α} (f : α → Attempt ε I β) (h : Makes E x.run m s) :
    Makes E (x >>= f).run m s := h.bind _

end Makes

end NodeRollout
