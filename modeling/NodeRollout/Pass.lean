import NodeRollout.LabelUpdate
import NodeRollout.Wait
/-!
One pass over the cluster. Control-plane nodes go first, one in a pass; workers follow in batches of
at most the worker limit, each awaited before the next is selected. All progress lives in the nodes'
labels, so a new pass goes on where an abandoned one stopped.
-/
namespace NodeRollout

/-- What one pass came to. -/
inductive PassOutcome where
  /-- The spec sets no target. -/
  | noTarget
  | steady
  /-- Nodes were selected or finished; these were selected in this pass. -/
  | advanced (selected : List String)
  /-- This selected node missed its deadline and stays selected. -/
  | stalled (node : String)
  deriving DecidableEq, Inhabited, Repr

def PassOutcome.label : PassOutcome → String
  | .noTarget => "no_target"
  | .steady => "steady"
  | .advanced _ => "advanced"
  | .stalled _ => "stalled"

namespace Pass

/-- Sets the selection marker for the target, over a marker for another one; nothing to do for a node
that carries it already. -/
def selectPlan (spec : Spec) : LabelPlan := fun node =>
  if node.isSelectedFor spec then ∅
  else .singleton Label.selection (some spec.selectionValue)

/-- Selects a node, and counts it under the role of the record it is selected by. -/
def select (spec : Spec) (node : Node) : Procedure Unit := do
  if ← LabelUpdate.run node (selectPlan spec) then
    ExceptT.lift (Cluster.count (.selected node.role))

/-- Awaits a selected node, and counts the wait or the missed deadline; tells whether it got there. -/
def await (settings : Settings) (spec : Spec) (node : Node) : Program Cluster Bool := do
  match ← Wait.run settings node.name spec with
  | some elapsed =>
    Cluster.count (.waited node.role elapsed)
    return true
  | none =>
    Cluster.count (.timedOut node.role)
    return false

/-- Awaits a node; the pass ends either way. -/
def awaitLast (settings : Settings) (spec : Spec) (node : Node) (selected : List String) :
    Program Cluster PassOutcome := do
  if ← await settings spec node then return .advanced selected else return .stalled node.name

/-- At most one control-plane node; `none` when every one of them is at the target. -/
def controlPlaneTier (settings : Settings) (spec : Spec) (nodes : List Node) :
    Procedure (Option PassOutcome) := do
  match nodes.find? (·.isUnderWay spec) with
  | some node => return some (← ExceptT.lift (awaitLast settings spec node []))
  | none =>
    match nodes.find? (·.isCandidate spec) with
    | some node =>
      select spec node
      return some (← ExceptT.lift (awaitLast settings spec node [node.name]))
    | none => return none

/-- Awaits these nodes in order, up to the first that misses its deadline, which is the result. -/
def awaitAll (settings : Settings) (spec : Spec) : List Node → Program Cluster (Option Node)
  | [] => return none
  | node :: rest => do
    if ← await settings spec node then awaitAll settings spec rest else return some node

/-- Selects and awaits up to `room` of the listed workers, each on a fresh read. A worker found at the
target ends the pass. The result tells the selected names and the worker that got stuck. -/
def selectBatch (settings : Settings) (spec : Spec) :
    (room : Nat) → List Node → Procedure (List String × Option String)
  | 0, _ => return ([], none)
  | _, [] => return ([], none)
  | room + 1, listed :: rest => do
    let node ← Cluster.get listed.name
    if !node.needsUpgrade spec then return ([], none)
    select spec node
    if ← ExceptT.lift (await settings spec node) then
      let (selected, stuck) ← selectBatch settings spec room rest
      return (node.name :: selected, stuck)
    else return ([node.name], some node.name)

/-- The workers: first those under way, then a batch of new ones. -/
def workerTier (settings : Settings) (spec : Spec) (nodes : List Node) : Procedure PassOutcome := do
  let underWay := nodes.filter (·.isUnderWay spec)
  match ← ExceptT.lift (awaitAll settings spec underWay) with
  | some node => return .stalled node.name
  | none =>
    let candidates := nodes.filter (·.isCandidate spec)
    let room := min (spec.workerLimit settings.defaultMaxUnavailable) candidates.length
    let (selected, stuck) ← selectBatch settings spec room candidates
    match stuck with
    | some name => return .stalled name
    | none =>
      if selected.isEmpty && underWay.isEmpty then return .steady else return .advanced selected

/-- One pass for the given desired state. -/
def run (settings : Settings) (spec : Spec) : Procedure PassOutcome := do
  if spec.isNoop then return .noTarget
  let nodes ← Cluster.list
  if !nodes.any (·.needsUpgrade spec) then return .steady
  let (controlPlanes, workers) := nodes.partition (·.isControlPlane)
  match ← controlPlaneTier settings spec controlPlanes with
  | some outcome => return outcome
  | none => workerTier settings spec workers

end Pass

end NodeRollout
