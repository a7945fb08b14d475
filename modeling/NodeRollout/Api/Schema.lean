import NodeRollout.Api.Timestamp
import NodeRollout.Json.Value
/-!
Shapes of API objects. A decoder knows the fields of an object by name: it passes over fields it does
not know, however deep they are and whether or not they can be read, takes a missing field as empty,
and refuses a known field of another type.

There are two families. In the objects of the cluster every field may be null, and of several fields
of one name the last counts. A record, such as an error status, has each field at most once, allows
null only where it says so, and may also be an array of its fields in their order.
-/
namespace NodeRollout.Api

open Json

/-- The shape of a value. -/
inductive Schema where
  | text
  | constant (text : String)
  /-- One of these names, alone or as the only member of an object, with the value null. -/
  | choice (names : List String)
  | flag
  | integer (bits : Nat)
  | natural (bits : Nat)
  | quantity
  | time
  | any
  | optional (schema : Schema)
  | list (item : Schema)
  | map (item : Schema)
  | fields (known : List (String × Schema))
  | record (known : List (String × Schema))

/-- How many containers may be open inside each other in a value that is decoded. -/
def maxDepth : Nat := 127

def countOf (name : String) (members : List (String × Value)) : Nat :=
  members.countP (·.1 == name)

namespace Schema

mutual

/-- Whether a value has the shape; in what is decoded of it at most `room` containers may be open. -/
def accepts (room : Nat) : Schema → Value → Bool
  | .text, .string _ => true
  | .constant wanted, .string s => s == wanted
  | .choice names, .string s => names.contains s
  | .choice names, .object [(name, .null)] => 0 < room && names.contains name
  | .flag, .bool _ => true
  | .integer bits, .number (.natural n) => n < 1 <<< (bits - 1)
  | .integer bits, .number (.negative n) => n ≤ 1 <<< (bits - 1)
  | .natural bits, .number (.natural n) => n < 1 <<< bits
  | .quantity, .string _ | .quantity, .number _ => true
  | .time, .string s => Timestamp.isValid s
  | .any, value => value.fits room
  | .optional _, .null => true
  | .optional schema, value => schema.accepts room value
  | .list item, .array values => 0 < room && values.all (item.accepts (room - 1))
  | .map item, .object members =>
    0 < room && members.all fun (_, value) => item.accepts (room - 1) value
  | .fields known, .object members =>
    0 < room && members.all fun (name, value) => acceptsMember (room - 1) known name value
  | .record known, .object members =>
    0 < room && known.all (fun (name, _) => countOf name members ≤ 1)
      && members.all fun (name, value) => acceptsMember (room - 1) known name value
  | .record known, .array values => 0 < room && acceptsElements (room - 1) known values
  | _, _ => false

def acceptsMember (room : Nat) : List (String × Schema) → String → Value → Bool
  | [], _, _ => true
  | (known, schema) :: rest, name, value =>
    if known == name then schema.accepts room value else acceptsMember room rest name value

/-- Whether values may be the elements of an array of these fields; the last fields may be missing. -/
def acceptsElements (room : Nat) : List (String × Schema) → List Value → Bool
  | _, [] => true
  | [], _ :: _ => false
  | (_, schema) :: rest, value :: values =>
    schema.accepts room value && acceptsElements room rest values

end

/-- The fields of a cluster object, all of which may be null. -/
def nullable (known : List (String × Schema)) : Schema :=
  .fields (known.map fun (name, schema) => (name, .optional schema))

def texts (names : List String) : List (String × Schema) := names.map (·, .text)

def objectMeta : Schema := nullable <|
  texts ["generateName", "name", "namespace", "resourceVersion", "selfLink", "uid"] ++ [
    ("annotations", .map .text),
    ("creationTimestamp", .time),
    ("deletionGracePeriodSeconds", .integer 64),
    ("deletionTimestamp", .time),
    ("finalizers", .list .text),
    ("generation", .integer 64),
    ("labels", .map .text),
    ("managedFields", .list <| nullable <|
      texts ["apiVersion", "fieldsType", "manager", "operation", "subresource"] ++
        [("fieldsV1", .any), ("time", .time)]),
    ("ownerReferences", .list <| nullable <|
      texts ["apiVersion", "kind", "name", "uid"] ++
        [("blockOwnerDeletion", .flag), ("controller", .flag)])]

def configSource : Schema := nullable [
  ("configMap",
    nullable (texts ["kubeletConfigKey", "name", "namespace", "resourceVersion", "uid"]))]

def nodeSpec : Schema := nullable <|
  texts ["externalID", "podCIDR", "providerID"] ++ [
    ("configSource", configSource),
    ("podCIDRs", .list .text),
    ("taints", .list <| nullable <| texts ["effect", "key", "value"] ++ [("timeAdded", .time)]),
    ("unschedulable", .flag)]

def nodeStatus : Schema := nullable [
  ("addresses", .list (nullable (texts ["address", "type"]))),
  ("allocatable", .map .quantity),
  ("capacity", .map .quantity),
  ("conditions", .list <| nullable <| texts ["message", "reason", "status", "type"] ++
    [("lastHeartbeatTime", .time), ("lastTransitionTime", .time)]),
  ("config", nullable <| texts ["error"] ++
    [("active", configSource), ("assigned", configSource), ("lastKnownGood", configSource)]),
  ("daemonEndpoints", nullable [("kubeletEndpoint", nullable [("Port", .integer 32)])]),
  ("features", nullable [("supplementalGroupsPolicy", .flag)]),
  ("images", .list (nullable [("names", .list .text), ("sizeBytes", .integer 64)])),
  ("nodeInfo", nullable (texts ["architecture", "bootID", "containerRuntimeVersion",
    "kernelVersion", "kubeProxyVersion", "kubeletVersion", "machineID", "operatingSystem",
    "osImage", "systemUUID"])),
  ("phase", .text),
  ("runtimeHandlers", .list (nullable [("name", .text),
    ("features", nullable [("recursiveReadOnlyMounts", .flag), ("userNamespaces", .flag)])])),
  ("volumesAttached", .list (nullable (texts ["devicePath", "name"]))),
  ("volumesInUse", .list .text)]

/-- A node object. Its version and kind, where given, have to be those of a node. -/
def node : Schema := .fields [
  ("apiVersion", .constant "v1"),
  ("kind", .constant "Node"),
  ("metadata", .optional objectMeta),
  ("spec", .optional nodeSpec),
  ("status", .optional nodeStatus)]

def listMeta : Schema := nullable <|
  texts ["continue", "resourceVersion", "selfLink"] ++ [("remainingItemCount", .integer 64)]

def statusDetails : Schema := .record <|
  texts ["name", "group", "kind", "uid"] ++ [
    ("causes", .list (.record (texts ["reason", "message", "field"]))),
    ("retryAfterSeconds", .natural 32)]

def statusFields : List (String × Schema) := [
  ("status", .optional (.choice ["Success", "Failure"])),
  ("code", .natural 16),
  ("message", .text),
  ("metadata", .optional listMeta),
  ("reason", .text),
  ("details", .optional statusDetails)]

end Schema

end NodeRollout.Api
