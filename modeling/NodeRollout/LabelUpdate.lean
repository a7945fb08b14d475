import NodeRollout.Cluster
/-!
One logical change of a node's labels. Every write is conditioned on the version it was planned for;
after a conflict the change is planned again on a fresh read, never merged.
-/
namespace NodeRollout

/-- The changes to make to a node, given how it was last read; none when nothing is left to do. -/
abbrev LabelPlan := Node → LabelChanges

namespace LabelUpdate

/-- How often a write is tried before the conflict is reported. -/
def maxAttempts : Nat := 5

/-- Tries up to `attempts` times to write the plan for `current`; tells whether it wrote. -/
def attempt (plan : LabelPlan) (name : String) : (attempts : Nat) → (current : Node) → Procedure Bool
  | 0, _ => throw (.conflict name)
  | attempts + 1, current => do
    let changes := plan current
    if changes.isEmpty then return false
    match ← ExceptT.lift (Cluster.patch current changes) with
    | .ok () => return true
    | .error (.conflict _) => attempt plan name attempts (← Cluster.get name)
    | .error failure => throw failure

/-- Carries out the plan for `node`, re-reading it after a conflict; tells whether a write was made. -/
def run (node : Node) (plan : LabelPlan) : Procedure Bool :=
  attempt plan node.name maxAttempts node

end LabelUpdate

end NodeRollout
