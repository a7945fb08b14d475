import NodeRollout.LabelUpdate
/-!
The loop of one node: it hands the desired state to the local agent once the node is selected for
it, and clears the marker when the node got there. A marker for another target is dropped unread.
-/
namespace NodeRollout

/-- What the sync of one node came to. -/
inductive SyncOutcome where
  | idle
  | waiting
  | pushed
  /-- The node is at the target; its marker was removed. -/
  | cleared
  | released
  deriving DecidableEq, Inhabited, Repr

namespace Sync

/-- Removes a marker that names another target. -/
def releasePlan (spec : Spec) : LabelPlan := fun node =>
  if node.hasStaleSelection spec then .singleton Label.selection none else ∅

/-- Removes the marker, and with a Kubernetes target records that it was reached. -/
def clearPlan (spec : Spec) : LabelPlan := fun node =>
  if !node.isSelected then ∅
  else if spec.kubeVersion.isEmpty then .singleton Label.selection none
  else (LabelMap.singleton Label.selection none).insert (Label.completed spec.kubeVersion)
    (some Label.completedValue)

/-- Acts on a record of this node that was read earlier. -/
def run (node : Node) (spec : Spec) : Procedure SyncOutcome := do
  if spec.isNoop then return .idle
  if node.hasStaleSelection spec then
    return if ← LabelUpdate.run node (releasePlan spec) then .released else .idle
  if node.needsUpgrade spec then
    if !node.isSelectedFor spec then return .waiting
    Cluster.push (.ofSpec spec node.isControlPlane)
    return .pushed
  return if ← LabelUpdate.run node (clearPlan spec) then .cleared else .idle

end Sync

end NodeRollout
