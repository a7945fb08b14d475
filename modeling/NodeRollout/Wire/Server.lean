import NodeRollout.Failure
import NodeRollout.Program
import NodeRollout.Wire.Line
import NodeRollout.Wire.Message
/-!
The agent's side of a connection: one reply for each line, in order. A line that is no request is
answered without calling the handler; a line that cannot be read ends the connection.
-/
namespace NodeRollout

/-- What the server asks of the world: to carry a request out, and to send a reply. -/
inductive ServerCall where
  | handle (request : PushRequest)
  | send (reply : Reply)

def ServerCall.Answer : ServerCall → Type
  | .handle _ => Except Failure Unit
  | .send _ => Unit

def ServerWorld : Interface := ⟨ServerCall, ServerCall.Answer⟩

namespace Server

/-- The reply to a request that was carried out with this result. -/
def replyTo : Except Failure Unit → Reply
  | .ok () => .ok
  | .error failure => .error failure.message

def replyToFault (fault : Json.Fault) : Reply := .error s!"invalid request: {fault.message}"

def answer (line : String) : Program ServerWorld Reply :=
  match PushRequest.ofLine line with
  | .ok request => do return replyTo (← Program.call (I := ServerWorld) (.handle request))
  | .error fault => return replyToFault fault

/-- Answers the lines of a connection, up to the first that cannot be read. -/
def session : List Framed → Program ServerWorld Unit
  | [] => return
  | .error _ :: _ => return
  | .ok line :: rest => do
    let reply ← answer line
    Program.call (I := ServerWorld) (.send reply)
    session rest

end Server

end NodeRollout
