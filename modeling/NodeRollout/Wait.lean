import NodeRollout.Cluster
/-!
The bounded wait for one selected node. Reads start at multiples of the poll interval; when a read
outlasts the interval, the next one starts as it ends and the schedule goes on from there.
-/
namespace NodeRollout

/-- How a selected node is awaited, and the worker limit of specs that set none. -/
structure Settings where
  pollInterval : Nat := 5000
  completionTimeout : Nat := 600000
  defaultMaxUnavailable : Nat := 2
  deriving DecidableEq, Inhabited, Repr

namespace Wait

def reached (spec : Spec) : Except Failure Node → Bool
  | .ok node => !node.needsUpgrade spec
  | .error _ => false

/-- When the read after one that started at `tick` and ended at `ended` starts. -/
def nextTick (interval tick ended : Nat) : Nat := max (tick + interval) ended

/-- Reads the node from `tick` on until it shows the target, and gives the time when it did, or
`none` once the deadline has come. A read that fails counts as one that shows nothing. -/
def poll (name : String) (spec : Spec) (interval deadline tick : Nat) :
    Program Cluster (Option Nat) :=
  if _h : tick < deadline ∧ 0 < interval then
    .ask (.readUntil name tick deadline) fun
      | none => .done none
      | some (ended, answer) =>
        if reached spec answer then .done (some ended)
        else poll name spec interval deadline (nextTick interval tick ended)
  else do
    Cluster.sleepUntil deadline
    return none
termination_by deadline - tick
decreasing_by
  have := Nat.le_max_left (tick + interval) ended
  simp only [nextTick]
  omega

/-- Waits for a node to reach the target; the result is the milliseconds it took, or `none` when the
timeout passed. An interval of zero is no schedule, and the wait ends at once. -/
def run (settings : Settings) (name : String) (spec : Spec) : Program Cluster (Option Nat) :=
  if settings.pollInterval = 0 then return none
  else do
    let started ← Cluster.now
    let ended ← poll name spec settings.pollInterval (started + settings.completionTimeout) started
    return ended.map (· - started)

def timeoutFailure (settings : Settings) (name : String) : Failure :=
  .selectionTimeout name settings.completionTimeout

end Wait

end NodeRollout
