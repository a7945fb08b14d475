import NodeRollout.Api.Schema
import NodeRollout.Node
/-!
Node objects of the API, and the labels a patch of one carries.
-/
namespace NodeRollout

open Json

namespace Node

def member? (value : Value) : List String → Option Value
  | [] => some value
  | name :: path => (value.get? name).bind (member? · path)

/-- The text at the end of a path, empty where there is none. -/
def textAt (value : Value) (path : List String) : String :=
  match member? value path with
  | some (.string s) => s
  | _ => ""

def labelsOf : Option Value → Labels
  | some (.object members) =>
    .ofList <| members.filterMap fun
      | (name, .string value) => some (name, value)
      | _ => none
  | _ => ∅

def ofObject (object : Value) : Node where
  name := textAt object ["metadata", "name"]
  resourceVersion :=
    match member? object ["metadata", "resourceVersion"] with
    | some (.string version) => some version
    | _ => none
  labels := labelsOf (member? object ["metadata", "labels"])
  osImage := textAt object ["status", "nodeInfo", "osImage"]
  kubelet := textAt object ["status", "nodeInfo", "kubeletVersion"]
  kubeProxy := textAt object ["status", "nodeInfo", "kubeProxyVersion"]
  unschedulable :=
    match member? object ["spec", "unschedulable"] with
    | some (.bool b) => b
    | _ => false

def ofObject? (object : Value) : Option Node :=
  if Api.Schema.node.accepts Api.maxDepth object then some (ofObject object) else none

/-- The labels of a node as a member of its metadata, which is left out when there are none. -/
def labelsMember (labels : Labels) : List (String × Value) :=
  if labels.isEmpty then []
  else [("labels", .object (labels.entries.map fun (name, value) => (name, .string value)))]

def versionMember : Option String → List (String × Value)
  | some version => [("resourceVersion", .string version)]
  | none => []

def object (node : Node) : Value :=
  let spec := if node.unschedulable then [("spec", .object [("unschedulable", .bool true)])] else []
  .object ([("metadata", .object (("name", .string node.name) ::
      (labelsMember node.labels ++ versionMember node.resourceVersion)))] ++ spec ++
    [("status", .object [("nodeInfo", .object [
      ("osImage", .string node.osImage),
      ("kubeletVersion", .string node.kubelet),
      ("kubeProxyVersion", .string node.kubeProxy)])])])

/-- The object that a label value is written as; a removed label is null. -/
def labelValue : Option String → Value
  | some value => .string value
  | none => .null

/-- The merge patch that makes these changes, conditioned on the version the node was read at. -/
def labelPatch (node : Node) (changes : LabelChanges) : Value :=
  let labels := changes.entries.map fun (name, value) => (name, labelValue value)
  .object [("metadata", .object (("labels", .object labels) :: versionMember node.resourceVersion))]

end Node

end NodeRollout
