import NodeRollout.Agent.Upgrade
/-!
Requests that reach one agent take turns. A request asks its host only while it has its turn, so an OS
image is never staged while a Kubernetes version is being applied.
-/
namespace NodeRollout

/-- What a request asks of the agent it came to. -/
inductive AgentCall where
  /-- Wait until no other request has its turn, and take it; who came first goes first. -/
  | takeTurn
  | host (call : HostCall)
  | endTurn

def AgentCall.Answer : AgentCall → Type
  | .host call => call.Answer
  | .takeTurn | .endTurn => Unit

def AgentWorld : Interface := ⟨AgentCall, AgentCall.Answer⟩

namespace Agent

def onHost {α : Type} : Program Host α → Program AgentWorld α
  | .done result => .done result
  | .ask call next => .ask (.host call) fun answer => onHost (next answer)

def handle (stampDir : String) (request : PushRequest) :
    Program AgentWorld (Except Failure Unit) := do
  Program.call (I := AgentWorld) .takeTurn
  let result ← onHost (upgrade stampDir request).run
  Program.call (I := AgentWorld) .endTurn
  return result

end Agent

end NodeRollout
