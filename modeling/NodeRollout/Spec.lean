import NodeRollout.Label
/-!
What an `Upgrade` object asks for: the versions every node shall report, and how many workers may be
under way in one pass. The Kubernetes version is the target when it is set, the OS version otherwise.
-/
namespace NodeRollout

/-- The desired state of a rollout. An empty text stands for an unset field. -/
structure Spec where
  osVersion : String := ""
  osImageUrl : String := ""
  kubeVersion : String := ""
  evictPodForce : Bool := false
  maxUnavailable : Int64 := 0
  deriving DecidableEq, Inhabited, Repr

namespace Spec

/-- The spec sets no target. -/
def isNoop (spec : Spec) : Bool := spec.osVersion.isEmpty && spec.kubeVersion.isEmpty

/-- The version that nodes are selected for. -/
def target (spec : Spec) : String :=
  if spec.kubeVersion.isEmpty then spec.osVersion else spec.kubeVersion

/-- The worker limit of one pass: `maxUnavailable` when positive, else the configured default. -/
def workerLimit (spec : Spec) (default : Nat) : Nat :=
  if 0 < spec.maxUnavailable.toInt then spec.maxUnavailable.toInt.toNat else default

/-- The value of the selection label for the target of this spec. -/
def selectionValue (spec : Spec) : String := Label.sanitize Label.maxLength spec.target

end Spec

/-- An `Upgrade` object: a spec under a name, which an object still being created may lack. -/
structure Upgrade where
  name : Option String
  spec : Spec
  deriving DecidableEq, Inhabited, Repr

namespace Upgrade

def nameText (upgrade : Upgrade) : String := upgrade.name.getD ""

/-- `u` goes before `v`: it has a name, and no greater one. -/
def before (u v : Upgrade) : Bool :=
  match u.name, v.name with
  | some a, some b => a ≤ b
  | some _, none => true
  | none, _ => false

/-- The named upgrade with the least name, the first of them on a tie; it drives the rollout. -/
def active? : List Upgrade → Option Upgrade
  | [] => none
  | u :: rest =>
    if u.name.isNone then active? rest
    else match active? rest with
      | none => some u
      | some v => if u.before v then some u else some v

end Upgrade

end NodeRollout
