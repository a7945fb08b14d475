import NodeRollout.Api.Exchange
import NodeRollout.Json.MergePatch
import NodeRollout.Store
/-!
The side of the API server that keeps nodes as objects: it merges a patch into the object, unless the
patch is conditioned on a version that is no longer the present one.
-/
namespace NodeRollout.Api

open Json

def statusObject (status : ApiStatus) : Value :=
  .object [("kind", .string "Status"), ("apiVersion", .string "v1"), ("metadata", .object []),
    ("status", .string "Failure"), ("message", .string status.message),
    ("reason", .string status.reason), ("code", .number (.natural status.code))]

def listObject (objects : List Value) : Value :=
  .object [("kind", .string "NodeList"), ("apiVersion", .string "v1"), ("metadata", .object []),
    ("items", .array objects)]

namespace Answer

def ofValue (value : Value) : Answer := ⟨200, value.text.toUTF8⟩

def ofStatus (status : ApiStatus) : Answer := ⟨status.code, (statusObject status).text.toUTF8⟩

/-- How the server tells of a failure; at one that is not its own the connection breaks. -/
def ofFailure? : Failure → Option Answer
  | .conflict name => some (.ofStatus ⟨409, "Conflict", name⟩)
  | .nodeNotFound name => some (.ofStatus ⟨404, "NotFound", name⟩)
  | .kube (.status status) => some (.ofStatus status)
  | _ => none

def ofResult? {α : Type} (object : α → Value) : Except Failure α → Option Answer
  | .ok a => some (.ofValue (object a))
  | .error failure => ofFailure? failure

end Answer

def Request.nodeName? (request : Request) : Option String :=
  let path := request.uri.toList.takeWhile (· != '?')
  if (nodesPath ++ "/").toList.isPrefixOf path then
    some (String.ofList (path.drop (nodesPath.length + 1)))
  else none

/-- The node objects of a server, each under its name. -/
structure NodeServer where
  objects : LabelMap Value := ∅

namespace NodeServer

/-- The server whose objects hold these nodes and nothing else. -/
def ofStore (store : Store) : NodeServer :=
  ⟨.ofList (store.list.map fun node => (node.name, node.object))⟩

def store (server : NodeServer) : Store :=
  .ofList (server.objects.entries.map fun e => Node.ofObject e.2)

def bump (object : Value) : Value :=
  object.mergePatch (.object [
    ("metadata", .object (Node.versionMember (Node.ofObject object).bump.resourceVersion))])

/-- Merges a patch, if the version it is conditioned on is the present one. -/
def patch (server : NodeServer) (name : String) (body : Value) : Except Failure NodeServer :=
  match server.objects.get? name with
  | none => .error (.nodeNotFound name)
  | some object =>
    if Store.isCurrent (Node.ofObject object) (Node.ofObject body) then
      .ok ⟨server.objects.insert name (bump (object.mergePatch body))⟩
    else .error (.conflict name)

def get (server : NodeServer) (name : String) : Except Failure Value :=
  match server.objects.get? name with
  | none => .error (.nodeNotFound name)
  | some object => .ok object

/-- Answers a request, and carries out the change it asks for. -/
def answer (server : NodeServer) (request : Request) : Option Answer × NodeServer :=
  match request.method, request.nodeName? with
  | .get, none => (some (.ofValue (listObject (server.objects.entries.map (·.2)))), server)
  | .get, some name => (Answer.ofResult? id (server.get name), server)
  | .patch, some name =>
    match server.patch name (request.body.getD .null) with
    | .ok next => (Answer.ofResult? id (next.get name), next)
    | .error failure => (Answer.ofFailure? failure, server)
  | .patch, none => (some (.ofStatus ⟨405, "MethodNotAllowed", ""⟩), server)

end NodeServer

end NodeRollout.Api
