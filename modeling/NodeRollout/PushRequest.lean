import NodeRollout.Spec
/-!
The part of a spec that one node's agent is told.
-/
namespace NodeRollout

/-- What an agent shall bring its node to. -/
structure PushRequest where
  kubeVersion : String
  osVersion : String
  osImageUrl : String
  controlPlane : Bool
  deriving DecidableEq, Inhabited, Repr

def PushRequest.ofSpec (spec : Spec) (controlPlane : Bool) : PushRequest :=
  ⟨spec.kubeVersion, spec.osVersion, spec.osImageUrl, controlPlane⟩

end NodeRollout
