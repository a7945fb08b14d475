/-!
Everything that can go wrong while a rollout is coordinated or carried out, by cause. The wording of
each cause stands in one place, `Failure.message`.
-/
namespace NodeRollout

/-- What the operating system or the reading of a file refused. -/
inductive IoCause where
  | notFound
  | permissionDenied
  | alreadyExists
  | notDirectory
  | isDirectory
  | nameTooLong
  | connectionRefused
  | invalidText
  | nulInName
  | socketPathTooLong
  | other (text : String)
  deriving DecidableEq, Inhabited, Repr

def IoCause.message : IoCause → String
  | .notFound => "No such file or directory (os error 2)"
  | .permissionDenied => "Permission denied (os error 13)"
  | .alreadyExists => "File exists (os error 17)"
  | .notDirectory => "Not a directory (os error 20)"
  | .isDirectory => "Is a directory (os error 21)"
  | .nameTooLong => "File name too long (os error 36)"
  | .connectionRefused => "Connection refused (os error 111)"
  | .invalidText => "stream did not contain valid UTF-8"
  | .nulInName => "file name contained an unexpected NUL byte"
  | .socketPathTooLong => "path must be shorter than SUN_LEN"
  | .other text => text

/-- An error the API server reports about a request. -/
structure ApiStatus where
  code : Nat := 0
  reason : String := ""
  message : String := ""
  deriving DecidableEq, Inhabited, Repr

/-- Why a request to the API server gave no result. -/
inductive ApiFault where
  | status (status : ApiStatus)
  | unreachable
  /-- The answer is not what the request asks for. -/
  | unreadable
  | badName
  deriving DecidableEq, Inhabited, Repr

def ApiFault.message : ApiFault → String
  | .status s => s!"ApiError: {s.message}: {s.reason}"
  | .unreachable => "the server cannot be reached"
  | .unreadable => "the answer cannot be read"
  | .badName => "the name cannot stand in a request"

/-- The failures of the control loops, of the agent and of the way between them. -/
inductive Failure where
  | kube (fault : ApiFault)
  | conflict (node : String)
  | nodeNotFound (node : String)
  /-- The node missed its deadline, which was `timeout` milliseconds. -/
  | selectionTimeout (node : String) (timeout : Nat)
  | rpcUnavailable (path reason : String)
  | remote (text : String)
  | protocol (text : String)
  | commandFailed (command message : String)
  | io (cause : IoCause)
  deriving DecidableEq, Inhabited, Repr

namespace Failure

def message : Failure → String
  | .kube fault => s!"Kubernetes API error: {fault.message}"
  | .conflict node => s!"Write conflict on node {node}"
  | .nodeNotFound node => s!"Node not found: {node}"
  | .selectionTimeout node timeout =>
    s!"Node {node} did not reach the target version within {timeout / 1000}s"
  | .rpcUnavailable path reason => s!"Upgrade agent unavailable at {path}: {reason}"
  | .remote text => s!"Upgrade agent returned an error: {text}"
  | .protocol text => s!"Protocol error: {text}"
  | .commandFailed command message => s!"Command `{command}` failed: {message}"
  | .io cause => s!"I/O error: {cause.message}"

/-- The loop should simply try again soon. -/
def isTransient : Failure → Bool
  | .kube _ | .conflict _ | .rpcUnavailable .. => true
  | _ => false

end Failure

end NodeRollout
