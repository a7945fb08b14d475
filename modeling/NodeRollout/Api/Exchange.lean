import NodeRollout.Api.NodeObject
import NodeRollout.Failure
import NodeRollout.Json.Printer
import NodeRollout.Program
/-!
The node store kept by the API server: the request of each call, and what its answer means. An answer
from 400 up to 599 carries a status, or else its text is taken for the message of one; any other one
carries the object that was asked for.
-/
namespace NodeRollout.Api

open Json

inductive Method where
  | get
  | patch
  deriving DecidableEq, Inhabited, Repr

/-- A request to the server. -/
structure Request where
  method : Method
  uri : String
  body : Option Value := none

/-- The media type of a body, which is a merge patch wherever there is one. -/
def Request.contentType (request : Request) : Option String :=
  request.body.map fun _ => "application/merge-patch+json"

/-- An answer of the server. -/
structure Answer where
  status : Nat
  body : ByteArray

def maxUriLength : Nat := 65534

/-- The characters of a path; some that ought to be escaped are let through. -/
def isPathChar (c : Char) : Bool :=
  let n := c.toNat
  n == 0x21 || n == 0x22 || (0x24 ≤ n && n ≤ 0x3B) || n == 0x3D || (0x40 ≤ n && n ≤ 0x5F)
    || (0x61 ≤ n && n != 0x7F)

def isQueryChar (c : Char) : Bool :=
  let n := c.toNat
  n == 0x21 || (0x24 ≤ n && n ≤ 0x3B) || n == 0x3D || (0x3F ≤ n && n != 0x7F)

/-- The address without its fragment, if only characters of an address stand in it. -/
def address? (text : String) : Option String :=
  let kept := text.toList.takeWhile (· != '#')
  let path := kept.takeWhile (· != '?')
  let query := (kept.dropWhile (· != '?')).drop 1
  if text.utf8ByteSize ≤ maxUriLength && path.all isPathChar && query.all isQueryChar then
    some (String.ofList kept)
  else none

def nodesPath : String := "/api/v1/nodes"

def fieldManager : String := "nodeup"

def listNodes : Request := ⟨.get, nodesPath ++ "?", none⟩

def listUpgrades : Request := ⟨.get, "/apis/nodeup.io/v1alpha1/upgrades?", none⟩

/-- The request for a node, unless its name cannot stand in an address. -/
def getNode (name : String) : Except Failure Request :=
  match address? (nodesPath ++ "/" ++ name) with
  | some uri => if name.isEmpty then .error (.kube .badName) else .ok ⟨.get, uri, none⟩
  | none => .error (.kube .badName)

def patchNode (node : Node) (changes : LabelChanges) : Except Failure Request :=
  match address? (nodesPath ++ "/" ++ node.name ++ "?&fieldManager=" ++ fieldManager) with
  | some uri =>
    if node.name.isEmpty then .error (.kube .badName)
    else .ok ⟨.patch, uri, some (node.labelPatch changes)⟩
  | none => .error (.kube .badName)

/-- A field of a status, by its name in an object and by its place in an array. -/
def statusField? (value : Value) (name : String) : Option Value :=
  match value with
  | .array values => values[Schema.statusFields.findIdx (·.1 == name)]?
  | value => value.get? name

/-- Reads an error status; a missing code is zero, and a missing text is empty. -/
def ApiStatus.ofValue? (value : Value) : Option ApiStatus :=
  let text (name : String) := ((statusField? value name).bind (·.string?)).getD ""
  if (Schema.record Schema.statusFields).accepts maxDepth value then
    some ⟨((statusField? value "code").bind (·.natural?)).getD 0, text "reason", text "message"⟩
  else none

/-- The reason given for an answer that carries no status. -/
def unparsedReason : String := "Failed to parse error data"

def isErrorStatus (status : Nat) : Bool := 400 ≤ status && status < 600

/-- What an answer carries; `none` for an answer that never came. -/
def resultOf (answer : Option Answer) : Except ApiFault Value :=
  match answer with
  | none => .error .unreachable
  | some answer =>
    match String.fromUTF8? answer.body with
    | none => .error .unreadable
    | some text =>
      if isErrorStatus answer.status then
        match (Value.ofText? text).bind ApiStatus.ofValue? with
        | some status => .error (.status status)
        | none => .error (.status ⟨answer.status, unparsedReason, text⟩)
      else
        match Value.ofText? text with
        | some value => .ok value
        | none => .error .unreadable

def nodeOf (value : Value) : Except ApiFault Node :=
  match Node.ofObject? value with
  | some node => .ok node
  | none => .error .unreadable

/-- Whether a value may be the member of this name in a list object. All but the metadata and the items
is kept as it is, so it has to be readable. -/
def acceptsInList (name : String) (value : Value) : Bool :=
  let room := maxDepth - 1
  if name = "metadata" then Schema.listMeta.accepts room value
  else if name = "items" then (Schema.optional (.list Schema.node)).accepts room value
  else value.fits room

/-- The nodes of a list object, in its order. It names its items once and its metadata at most once; no
items at all are an empty list. -/
def nodesOf : Value → Except ApiFault (List Node)
  | .object members =>
    if countOf "items" members = 1 ∧ countOf "metadata" members ≤ 1
        ∧ members.all (fun (name, value) => acceptsInList name value) then
      .ok (((members.lookup "items").getD .null).items.map Node.ofObject)
    else .error .unreadable
  | _ => .error .unreadable

def listed (answer : Option Answer) : Except Failure (List Node) :=
  match resultOf answer >>= nodesOf with
  | .ok nodes => .ok nodes
  | .error fault => .error (.kube fault)

/-- The outcome of reading a node; a status that gives the reason `NotFound` tells it is not there. -/
def got (name : String) (answer : Option Answer) : Except Failure Node :=
  match resultOf answer >>= nodeOf with
  | .ok node => .ok node
  | .error (.status status) =>
    if status.reason = "NotFound" then .error (.nodeNotFound name)
    else .error (.kube (.status status))
  | .error fault => .error (.kube fault)

/-- The outcome of a patch; the codes 409 and 404 tell of a conflict and of a missing node. -/
def patched (name : String) (answer : Option Answer) : Except Failure Unit :=
  match resultOf answer >>= nodeOf with
  | .ok _ => .ok ()
  | .error (.status status) =>
    if status.code = 409 then .error (.conflict name)
    else if status.code = 404 then .error (.nodeNotFound name)
    else .error (.kube (.status status))
  | .error fault => .error (.kube fault)

/-- The way to the server: one answer for each request, or none when the connection breaks. -/
def Channel : Interface := ⟨Request, fun _ => Option Answer⟩

/-- Sends a request, if there is one, and reads the answer. -/
def exchange {α : Type} (request : Except Failure Request)
    (read : Option Answer → Except Failure α) : Program Channel (Except Failure α) :=
  match request with
  | .ok request => do return read (← Program.call (I := Channel) request)
  | .error failure => return .error failure

def list : Program Channel (Except Failure (List Node)) := exchange (.ok listNodes) listed

def get (name : String) : Program Channel (Except Failure Node) :=
  exchange (getNode name) (got name)

/-- Changes labels, if the node still has the version it was read at. -/
def patch (node : Node) (changes : LabelChanges) : Program Channel (Except Failure Unit) :=
  exchange (patchNode node changes) (patched node.name)

end NodeRollout.Api
