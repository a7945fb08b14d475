import NodeRollout.Failure
import NodeRollout.Wire.Line
import NodeRollout.Wire.Message
/-!
The proxy's side: one connection for each request, one line sent, and the first line of the answer is
the reply.
-/
namespace NodeRollout.Client

/-- What became of one request on its way. -/
inductive Exchange where
  | refused (cause : IoCause)
  /-- The agent sent these bytes and closed the connection. -/
  | answered (pieces : List (List UInt8))
  | timedOut (timeout : Nat)

def ofReply : Reply → Except Failure Unit
  | .ok => .ok ()
  | .error message => .error (.remote message)

def result (path : String) : Exchange → Except Failure Unit
  | .refused cause => .error (.rpcUnavailable path cause.message)
  | .timedOut timeout => .error (.rpcUnavailable path s!"no reply within {timeout / 1000}s")
  | .answered pieces =>
    match LineReader.lines pieces with
    | [] => .error (.rpcUnavailable path "connection closed before reply")
    | .error fault :: _ => .error (.rpcUnavailable path fault.message)
    | .ok line :: _ =>
      match Reply.ofLine line with
      | .ok reply => ofReply reply
      | .error fault => .error (.protocol fault.message)

end NodeRollout.Client
