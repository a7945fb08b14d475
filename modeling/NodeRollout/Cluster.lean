import NodeRollout.Failure
import NodeRollout.Node
import NodeRollout.Program
import NodeRollout.PushRequest
/-!
The questions that the control loops ask: the node store, the list of upgrades, this node's agent,
the clock, and the counters. Times are milliseconds on one clock.

A read made while waiting may be overtaken by the deadline of the wait, so that question carries its
start and the deadline, and is answered with the time at which the read ended.
-/
namespace NodeRollout

/-- One observation that the metrics count. -/
inductive Sample where
  | reconciled (result : String)
  | selected (role : Role)
  | timedOut (role : Role)
  /-- A node reached its target after this many milliseconds. -/
  | waited (role : Role) (elapsed : Nat)
  deriving DecidableEq, Inhabited, Repr

/-- What a control loop can ask of the cluster. -/
inductive ClusterCall where
  | list
  | get (name : String)
  /-- Change labels, if the node still has the resource version of this record. -/
  | patch (node : Node) (changes : LabelChanges)
  | upgrades
  | push (request : PushRequest)
  | now
  /-- Read a node, beginning at `start`, and give up at `deadline`. -/
  | readUntil (name : String) (start deadline : Nat)
  | sleepUntil (time : Nat)
  | count (sample : Sample)

/-- The answers. A timed read is answered with its end and its result, or with `none` when the
deadline came first. -/
@[reducible] def ClusterCall.Answer : ClusterCall → Type
  | .list => Except Failure (List Node)
  | .get _ => Except Failure Node
  | .patch .. => Except Failure Unit
  | .upgrades => Except Failure (List Upgrade)
  | .push _ => Except Failure Unit
  | .now => Nat
  | .readUntil .. => Option (Nat × Except Failure Node)
  | .sleepUntil _ => Unit
  | .count _ => Unit

/-- The world of the control loops. -/
abbrev Cluster : Interface := ⟨ClusterCall, ClusterCall.Answer⟩

/-- A procedure of the control loops that may fail. -/
abbrev Procedure (α : Type) := ExceptT Failure (Program Cluster) α

namespace Cluster

def list : Procedure (List Node) := ExceptT.mk (Program.call (I := Cluster) .list)

def get (name : String) : Procedure Node := ExceptT.mk (Program.call (I := Cluster) (.get name))

def patch (node : Node) (changes : LabelChanges) : Program Cluster (Except Failure Unit) :=
  Program.call (I := Cluster) (.patch node changes)

def upgrades : Procedure (List Upgrade) := ExceptT.mk (Program.call (I := Cluster) .upgrades)

def push (request : PushRequest) : Procedure Unit :=
  ExceptT.mk (Program.call (I := Cluster) (.push request))

def now : Program Cluster Nat := Program.call (I := Cluster) .now

def sleepUntil (time : Nat) : Program Cluster Unit := Program.call (I := Cluster) (.sleepUntil time)

def count (sample : Sample) : Program Cluster Unit := Program.call (I := Cluster) (.count sample)

end Cluster

end NodeRollout
