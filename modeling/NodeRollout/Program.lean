/-!
Procedures that ask the outside world, as data: a finite tree of questions in which the rest depends
on the answer. The same definition is run against a real or pretended world, and reasoned about for
every world through `Runs`.
-/
namespace NodeRollout

/-- What can be asked, and the type of the answer to each question. -/
structure Interface where
  Call : Type
  Answer : Call → Type

/-- A procedure over an interface that ends with a result of type `α`. -/
inductive Program (I : Interface) (α : Type) : Type where
  | done (result : α)
  | ask (call : I.Call) (next : I.Answer call → Program I α)

namespace Program

variable {I : Interface} {α β : Type}

def andThen : Program I α → (α → Program I β) → Program I β
  | .done result, f => f result
  | .ask call next, f => .ask call fun answer => (next answer).andThen f

instance : Monad (Program I) where
  pure := .done
  bind := andThen

def call (c : I.Call) : Program I (I.Answer c) := .ask c .done

def run {m : Type → Type} [Monad m] (answer : (c : I.Call) → m (I.Answer c)) : Program I α → m α
  | .done result => pure result
  | .ask c next => do (next (← answer c)).run answer

/-- A question with its answer. -/
structure Event (I : Interface) where
  call : I.Call
  answer : I.Answer call

/-- The program can ask these questions, get these answers and end with this result. -/
inductive Runs : Program I α → List (Event I) → α → Prop where
  | done (result : α) : Runs (.done result) [] result
  | ask {call : I.Call} {next : I.Answer call → Program I α} {events : List (Event I)} {result : α}
      (answer : I.Answer call) (rest : Runs (next answer) events result) :
      Runs (.ask call next) (⟨call, answer⟩ :: events) result

end Program

/-- A program that may fail. -/
abbrev Attempt (ε : Type) (I : Interface) (α : Type) := ExceptT ε (Program I) α

/-- Asks one question whose answer may be a failure. -/
def Attempt.ofProgram {ε : Type} {I : Interface} {α : Type} (p : Program I (Except ε α)) :
    Attempt ε I α := ExceptT.mk p

end NodeRollout
