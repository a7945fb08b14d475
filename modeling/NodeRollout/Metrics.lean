import NodeRollout.Cluster
import NodeRollout.Decimal.Approximate
/-!
The operator's metrics: counters of reconciles by result and of selections and missed deadlines by
role, and a histogram of the waits by role. Only label sets that were counted appear in the text.
-/
namespace NodeRollout

/-- The upper bounds of the wait buckets in seconds; a bucket includes its bound. -/
def waitBounds : List Nat := [5, 15, 30, 60, 120, 300, 600, 1200, 1800, 3600]

/-- The waits of one role. -/
structure Histogram where
  /-- The waits that are within each bound. -/
  within : List Nat := waitBounds.map fun _ => 0
  count : Nat := 0
  sum : Float := 0

def Histogram.observe (h : Histogram) (seconds : Float) : Histogram where
  within := (waitBounds.zip h.within).map fun (bound, n) =>
    if seconds ≤ bound.toFloat then n + 1 else n
  count := h.count + 1
  sum := h.sum + seconds

/-- One value for each of the roles that was seen. -/
structure ByRole (α : Type) where
  controlPlane : Option α := none
  worker : Option α := none

namespace ByRole

variable {α : Type}

def get? (m : ByRole α) : Role → Option α
  | .controlPlane => m.controlPlane
  | .worker => m.worker

def set (m : ByRole α) (role : Role) (value : α) : ByRole α :=
  match role with
  | .controlPlane => { m with controlPlane := some value }
  | .worker => { m with worker := some value }

def entries (m : ByRole α) : List (Role × α) :=
  [Role.controlPlane, Role.worker].filterMap fun role => (m.get? role).map (role, ·)

end ByRole

/-- The state of all metrics. -/
structure Metrics where
  /-- Reconciles by result, in the order in which the results first came. -/
  reconciles : List (String × Nat) := []
  selections : ByRole Nat := {}
  timeouts : ByRole Nat := {}
  waits : ByRole Histogram := {}

namespace Metrics

def countResult (result : String) : List (String × Nat) → List (String × Nat)
  | [] => [(result, 1)]
  | (r, n) :: rest => if r = result then (r, n + 1) :: rest else (r, n) :: countResult result rest

def countRole (m : ByRole Nat) (role : Role) : ByRole Nat := m.set role ((m.get? role).getD 0 + 1)

/-- Milliseconds as seconds: the whole ones and the rest are rounded apart. -/
def seconds (ms : Nat) : Float := (ms / 1000).toFloat + (ms % 1000).toFloat / 1000

def observeWait (m : Metrics) (role : Role) (seconds : Float) : Metrics :=
  { m with waits := m.waits.set role (((m.waits.get? role).getD {}).observe seconds) }

def record (m : Metrics) : Sample → Metrics
  | .reconciled result => { m with reconciles := countResult result m.reconciles }
  | .selected role => { m with selections := countRole m.selections role }
  | .timedOut role => { m with timeouts := countRole m.timeouts role }
  | .waited role elapsed => m.observeWait role (seconds elapsed)

/-- Sums are positional from 10^-6 up to below 10^21. -/
def sumFormat : Decimal.FloatFormat := ⟨-6, 20, false, 1⟩

/-- A sample line with its labels, whose values stand as they are. -/
def sample (name : String) (labels : List (String × String)) (value : String) : String :=
  let shown := labels.map fun (label, text) => label ++ "=\"" ++ text ++ "\""
  name ++ "\x7b" ++ ",".intercalate shown ++ "\x7d " ++ value

def heading (name help kind : String) : List String :=
  [s!"# HELP {name} {help}.", s!"# TYPE {name} {kind}"]

def roleCounter (name : String) (m : ByRole Nat) : List String :=
  m.entries.map fun (role, n) => sample (name ++ "_total") [("role", role.text)] (toString n)

def waitLines (name : String) (role : Role) (h : Histogram) : List String :=
  let bucket (bound : String) (n : Nat) :=
    sample (name ++ "_bucket") [("le", bound), ("role", role.text)] (toString n)
  let roleOnly := [("role", role.text)]
  [sample (name ++ "_sum") roleOnly (sumFormat.text Decimal.approximate h.sum.toBits),
    sample (name ++ "_count") roleOnly (toString h.count)]
    ++ (waitBounds.zip h.within).map (fun (bound, n) => bucket (s!"{bound}.0") n)
    ++ [bucket "+Inf" h.count]

def lines (m : Metrics) : List String :=
  heading "nodeup_reconcile" "Total number of reconcile calls" "counter"
    ++ m.reconciles.map (fun (result, n) =>
      sample "nodeup_reconcile_total" [("result", result)] (toString n))
    ++ heading "nodeup_node_selections" "Total number of nodes selected for upgrade" "counter"
    ++ roleCounter "nodeup_node_selections" m.selections
    ++ heading "nodeup_selection_timeouts"
      "Total number of selected nodes that missed the completion deadline" "counter"
    ++ roleCounter "nodeup_selection_timeouts" m.timeouts
    ++ heading "nodeup_selection_wait_seconds"
      "Time from selecting a node until it reports the target versions" "histogram"
    ++ m.waits.entries.flatMap (fun (role, h) =>
      waitLines "nodeup_selection_wait_seconds" role h)
    ++ ["# EOF"]

def text (m : Metrics) : String := String.join (m.lines.map (· ++ "\n"))

end Metrics

/-- Whether the program is ready to serve; not so at first. -/
structure Readiness where
  ready : Bool := false
  deriving DecidableEq, Inhabited

end NodeRollout
