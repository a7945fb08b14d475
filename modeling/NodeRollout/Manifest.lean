/-!
The manifest by which a cluster learns the `Upgrade` resource: its names, the columns of its listing,
and the schema of its spec.
-/
namespace NodeRollout.Manifest

/-- A property of the spec, its default as it is written. -/
structure Property where
  name : String
  type : String
  format : Option String := none
  default : String
  description : String
  deriving DecidableEq, Inhabited, Repr

/-- The properties of the spec in the order of their names. -/
def properties : List Property := [
  { name := "evictPodForce", type := "boolean", default := "false"
    description := "Evict pods even when a disruption budget would block it." },
  { name := "kubeVersion", type := "string", default := "''"
    description := "Target Kubernetes version (e.g., \"v1.29.1\")." },
  { name := "maxUnavailable", type := "integer", format := some "int64", default := "0"
    description :=
      "Maximum number of worker nodes selected per pass (default applied when <= 0)." },
  { name := "osImageUrl", type := "string", default := "''"
    description := "OCI image reference the node is rebased onto." },
  { name := "osVersion", type := "string", default := "''"
    description := "Target OS image name, as reported in the node's `osImage` " ++
      "(e.g., \"Fedora CoreOS 40.20240416.3.1\")." }]

/-- A column of the listing. -/
structure Column where
  path : String
  name : String
  type : String
  deriving DecidableEq, Inhabited, Repr

def columns : List Column := [
  ⟨".spec.osVersion", "OS", "string"⟩,
  ⟨".spec.kubeVersion", "KUBE", "string"⟩,
  ⟨".spec.maxUnavailable", "MAX", "integer"⟩,
  ⟨".metadata.creationTimestamp", "AGE", "date"⟩]

def indent (width : Nat) (lines : List String) : List String :=
  lines.map ("".pushn ' ' width ++ ·)

def Column.lines (column : Column) : List String := [
  s!"- jsonPath: {column.path}",
  s!"  name: {column.name}",
  s!"  type: {column.type}"]

def Property.lines (property : Property) : List String :=
  let format := match property.format with
    | some format => [s!"format: {format}"]
    | none => []
  s!"{property.name}:" :: indent 2 (
    [s!"default: {property.default}", s!"description: {property.description}"] ++ format ++
    [s!"type: {property.type}"])

def schema : List String := [
    "description: Auto-generated derived type for UpgradeSpec via `CustomResource`",
    "properties:",
    "  spec:",
    "    description: '`Upgrade` spec describes the target OS and Kubernetes versions of a rollout.'",
    "    properties:"] ++
  indent 6 (properties.flatMap Property.lines) ++ [
    "    type: object",
    "required:",
    "- spec",
    "title: Upgrade",
    "type: object"]

def lines : List String := [
    "apiVersion: apiextensions.k8s.io/v1",
    "kind: CustomResourceDefinition",
    "metadata:",
    "  name: upgrades.nodeup.io",
    "spec:",
    "  group: nodeup.io",
    "  names:",
    "    categories: []",
    "    kind: Upgrade",
    "    plural: upgrades",
    "    shortNames: []",
    "    singular: upgrade",
    "  scope: Cluster",
    "  versions:",
    "  - additionalPrinterColumns:"] ++
  indent 4 (columns.flatMap Column.lines) ++ [
    "    name: v1alpha1",
    "    schema:",
    "      openAPIV3Schema:"] ++
  indent 8 schema ++ [
    "    served: true",
    "    storage: true",
    "    subresources: \x7b\x7d"]

def text : String := String.join (lines.map (· ++ "\n"))

end NodeRollout.Manifest
