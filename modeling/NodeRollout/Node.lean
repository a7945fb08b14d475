import NodeRollout.LabelMap
import NodeRollout.Spec
/-!
What the control loops know of a node: its labels, the versions it reports, and the resource version
its marker writes are conditioned on.
-/
namespace NodeRollout

/-- A node as it was read. -/
structure Node where
  name : String
  resourceVersion : Option String := none
  labels : Labels := ∅
  osImage : String := ""
  kubelet : String := ""
  kubeProxy : String := ""
  unschedulable : Bool := false
  deriving DecidableEq, Inhabited

/-- The two kinds of nodes, upgraded in this order. -/
inductive Role where
  | controlPlane
  | worker
  deriving DecidableEq, Inhabited, Repr

def Role.text : Role → String
  | .controlPlane => "control-plane"
  | .worker => "worker"

namespace Node

def isControlPlane (node : Node) : Bool := node.labels.contains Label.controlPlane

def role (node : Node) : Role := if node.isControlPlane then .controlPlane else .worker

/-- The node carries a selection marker, for any target. -/
def isSelected (node : Node) : Bool := node.labels.contains Label.selection

/-- The node carries the selection marker for the target of `spec`. -/
def isSelectedFor (node : Node) (spec : Spec) : Bool :=
  node.labels.get? Label.selection == some spec.selectionValue

/-- The node carries a selection marker for another target. -/
def hasStaleSelection (node : Node) (spec : Spec) : Bool :=
  node.isSelected && !node.isSelectedFor spec

/-- The node does not report the target. A Kubernetes target has to be reported by the kubelet and
by kube-proxy; without one the OS image is compared. -/
def needsUpgrade (node : Node) (spec : Spec) : Bool :=
  if spec.kubeVersion.isEmpty then spec.osVersion != node.osImage
  else spec.kubeVersion != node.kubeProxy || spec.kubeVersion != node.kubelet

/-- A node is behind a Kubernetes target when one of its two versions is another one, and behind an
OS-only target when its image is. -/
theorem needsUpgrade_iff {node : Node} {spec : Spec} : node.needsUpgrade spec = true ↔
    if spec.kubeVersion = "" then spec.osVersion ≠ node.osImage
    else spec.kubeVersion ≠ node.kubeProxy ∨ spec.kubeVersion ≠ node.kubelet := by
  by_cases hkube : spec.kubeVersion = "" <;> simp [needsUpgrade, hkube]

/-- The node is selected for the target and still on its way there. -/
def isUnderWay (node : Node) (spec : Spec) : Bool :=
  node.isSelectedFor spec && node.needsUpgrade spec

/-- The node is behind the target and not selected for it. -/
def isCandidate (node : Node) (spec : Spec) : Bool :=
  !node.isSelectedFor spec && node.needsUpgrade spec

end Node

end NodeRollout
