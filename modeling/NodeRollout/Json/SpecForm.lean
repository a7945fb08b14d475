import NodeRollout.Json.Printer
import NodeRollout.Json.Record
import NodeRollout.Spec
/-!
Specs as JSON. Every field may be left out, and then has its default.
-/
namespace NodeRollout.Spec

open Json

/-- The fields of a spec found so far. -/
structure Draft where
  osVersion : Option String := none
  osImageUrl : Option String := none
  kubeVersion : Option String := none
  evictPodForce : Option Bool := none
  maxUnavailable : Option Int64 := none
  deriving DecidableEq, Inhabited, Repr

def Draft.slot (draft : Draft) (name : String) : Slot Draft :=
  match name with
  | "osVersion" => .ofField draft.osVersion Seen.asString fun v => { draft with osVersion := v }
  | "osImageUrl" => .ofField draft.osImageUrl Seen.asString fun v => { draft with osImageUrl := v }
  | "kubeVersion" =>
    .ofField draft.kubeVersion Seen.asString fun v => { draft with kubeVersion := v }
  | "evictPodForce" =>
    .ofField draft.evictPodForce Seen.asBool fun v => { draft with evictPodForce := v }
  | "maxUnavailable" =>
    .ofField draft.maxUnavailable Seen.asInt64 fun v => { draft with maxUnavailable := v }
  | _ => .unknown

/-- The spec in which what was not found has its default. -/
def Draft.spec (draft : Draft) : Spec where
  osVersion := draft.osVersion.getD ""
  osImageUrl := draft.osImageUrl.getD ""
  kubeVersion := draft.kubeVersion.getD ""
  evictPodForce := draft.evictPodForce.getD false
  maxUnavailable := draft.maxUnavailable.getD 0

def record : Record Draft Spec where
  title := "struct UpgradeSpec"
  fields := ["osVersion", "osImageUrl", "kubeVersion", "evictPodForce", "maxUnavailable"]
  blank := {}
  slot := Draft.slot
  ofObject draft := .ok draft.spec
  ofArray draft _ := .ok draft.spec

def ofJson (text : String) : Decoded Spec := decodeWhole record.read text

def toJson (spec : Spec) : String :=
  String.ofList <| writeObject [
    writeMember "osVersion" (writeString spec.osVersion),
    writeMember "osImageUrl" (writeString spec.osImageUrl),
    writeMember "kubeVersion" (writeString spec.kubeVersion),
    writeMember "evictPodForce" (writeBool spec.evictPodForce),
    writeMember "maxUnavailable" (writeInt spec.maxUnavailable.toInt)]

end NodeRollout.Spec
