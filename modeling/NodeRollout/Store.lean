import NodeRollout.Failure
import NodeRollout.Node
import NodeRollout.Text.Digits
/-!
A cluster held in memory. Every write to a node gives it the next resource version, and a write
conditioned on another one is refused, so two writers that read the same record cannot both succeed.
-/
namespace NodeRollout

/-- The number of the resource version, zero when it is none. -/
def Node.versionNumber (node : Node) : Nat :=
  (node.resourceVersion.bind fun version => Text.readUnsigned version.toList).getD 0

def Node.bump (node : Node) : Node :=
  { node with resourceVersion := some (toString (node.versionNumber + 1)) }

/-- The nodes of a cluster, each under its name. -/
structure Store where
  nodes : LabelMap Node := ∅

namespace Store

def list (store : Store) : List Node := store.nodes.entries.map (·.2)

def find? (store : Store) (name : String) : Option Node := store.nodes.get? name

/-- Adds a node, or replaces the one of its name. -/
def put (store : Store) (node : Node) : Store := ⟨store.nodes.insert node.name node⟩

def remove (store : Store) (name : String) : Store := ⟨store.nodes.erase name⟩

def ofList (nodes : List Node) : Store := nodes.foldl put {}

def get (store : Store) (name : String) : Except Failure Node :=
  match store.find? name with
  | some node => .ok node
  | none => .error (.nodeNotFound name)

/-- A write conditioned on the version of `seen` may go ahead on this node. -/
def isCurrent (node seen : Node) : Bool :=
  seen.resourceVersion.isNone || seen.resourceVersion == node.resourceVersion

/-- Changes labels of the node that was read as `seen`, unless it was changed since. -/
def patch (store : Store) (seen : Node) (changes : LabelChanges) : Except Failure Store :=
  match store.find? seen.name with
  | none => .error (.nodeNotFound seen.name)
  | some node =>
    if isCurrent node seen then
      .ok (store.put { node with labels := node.labels.apply changes }.bump)
    else .error (.conflict seen.name)

end Store

end NodeRollout
