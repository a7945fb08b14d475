import NodeRollout.Pass
import NodeRollout.Sync
/-!
The two control loops, one step each: the operator runs a pass for the active upgrade, and the proxy
of a node syncs that node with it. Each step ends with the time after which it runs again.
-/
namespace NodeRollout

/-- When a control loop looks at its object again. -/
inductive Requeue where
  | awaitChange
  | after (delay : Nat)
  deriving DecidableEq, Inhabited, Repr

namespace Requeue

/-- Every node is at the target: look again after five minutes. A pass that made progress is followed
by the next at once, and one that is stuck by another after a minute. -/
def ofPass : PassOutcome → Requeue
  | .noTarget => .awaitChange
  | .steady => .after 300000
  | .advanced _ => .after 100
  | .stalled _ => .after 60000

/-- A pushed request is looked after in half a minute. -/
def ofSync : SyncOutcome → Requeue
  | .pushed => .after 30000
  | .idle | .waiting | .cleared | .released => .awaitChange

/-- What may pass by itself is tried again sooner. -/
def ofFailure (failure : Failure) : Requeue :=
  if failure.isTransient then .after 10000 else .after 30000

end Requeue

namespace Operator

/-- One step for `upgrade`, knowing every upgrade: a pass, unless another one drives the rollout. -/
def reconcile (settings : Settings) (known : List Upgrade) (upgrade : Upgrade) :
    Procedure Requeue := do
  let ignored := match Upgrade.active? known with
    | some active => active.nameText != upgrade.nameText
    | none => false
  if ignored then
    ExceptT.lift (Cluster.count (.reconciled "ignored"))
    return .awaitChange
  let outcome ← Pass.run settings upgrade.spec
  ExceptT.lift (Cluster.count (.reconciled outcome.label))
  return .ofPass outcome

/-- After a failed step: it is counted, and tried again. -/
def onFailure (failure : Failure) : Program Cluster Requeue := do
  Cluster.count (.reconciled "error")
  return .ofFailure failure

end Operator

namespace Proxy

/-- One step of the proxy of node `self`, for a record that was seen: nothing for another node. -/
def reconcile (self : String) (node : Node) : Procedure Requeue := do
  if node.name != self then return .awaitChange
  match Upgrade.active? (← Cluster.upgrades) with
  | none => return .awaitChange
  | some active => return .ofSync (← Sync.run node active.spec)

def onFailure (failure : Failure) : Requeue := .ofFailure failure

end Proxy

end NodeRollout
