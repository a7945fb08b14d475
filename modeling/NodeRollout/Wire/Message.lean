import NodeRollout.Json.Printer
import NodeRollout.Json.Record
import NodeRollout.PushRequest
/-!
The messages between a proxy and its agent, one JSON object a line.

A request names its method and carries its parameters. It is read word by word, in whatever order
the two members come: parameters that come before the method are kept as a value until the method
says what they are. A reply is `ok` or an error with its text; its status is read at once, the rest
is kept until the end.
-/
namespace NodeRollout

open Json

namespace PushRequest

/-- The fields of a request found so far. -/
structure Draft where
  kubeVersion : Option String := none
  osVersion : Option String := none
  osImageUrl : Option String := none
  controlPlane : Option Bool := none
  deriving DecidableEq, Inhabited, Repr

def Draft.slot (draft : Draft) (name : String) : Slot Draft :=
  match name with
  | "kube_version" =>
    .ofField draft.kubeVersion Seen.asString fun v => { draft with kubeVersion := v }
  | "os_version" => .ofField draft.osVersion Seen.asString fun v => { draft with osVersion := v }
  | "os_image_url" =>
    .ofField draft.osImageUrl Seen.asString fun v => { draft with osImageUrl := v }
  | "control_plane" =>
    .ofField draft.controlPlane Seen.asBool fun v => { draft with controlPlane := v }
  | _ => .unknown

def Draft.request (draft : Draft) : Decoded PushRequest := do
  return ⟨← Record.required "kube_version" draft.kubeVersion,
    ← Record.required "os_version" draft.osVersion,
    ← Record.required "os_image_url" draft.osImageUrl,
    ← Record.required "control_plane" draft.controlPlane⟩

def record : Record Draft PushRequest where
  title := "struct PushRequest"
  fields := ["kube_version", "os_version", "os_image_url", "control_plane"]
  blank := {}
  slot := Draft.slot
  ofObject := Draft.request
  ofArray draft count :=
    match draft.request with
    | .ok request => .ok request
    | .error _ => .error (.wrongLength count "struct PushRequest with 4 elements")

def write (request : PushRequest) : List Char :=
  writeObject [
    writeMember "kube_version" (writeString request.kubeVersion),
    writeMember "os_version" (writeString request.osVersion),
    writeMember "os_image_url" (writeString request.osImageUrl),
    writeMember "control_plane" (writeBool request.controlPlane)]

def line (request : PushRequest) : String :=
  String.ofList <| writeObject [
    writeMember "method" (writeString "Upgrade"),
    writeMember "params" request.write]

/-- The members of a request object that matter. -/
inductive Tag where
  | method
  | params
  deriving DecidableEq, Repr

def Tag.name : Tag → String
  | .method => "method"
  | .params => "params"

def Tag.ofName? (name : String) : Option Tag :=
  if name = "method" then some .method else if name = "params" then some .params else none

/-- The next member that matters, or `none` at the end of the object. -/
def nextTag (first : Bool) (tokens : List Token) : Decoded (Option Tag × List Token) :=
  match _hk : nextKey first tokens with
  | .error fault => .error fault
  | .ok (none, rest) => .ok (none, rest)
  | .ok (some name, rest) =>
    match Tag.ofName? name with
    | some tag => .ok (some tag, rest)
    | none =>
      match _hs : skipMember rest with
      | .error fault => .error fault
      | .ok rest => nextTag false rest
termination_by tokens.length
decreasing_by
  have := length_of_nextKey _hk
  have := length_of_skipMember _hs
  omega

def checkMethod (name : String) : Decoded Unit :=
  if name = "Upgrade" then .ok () else .error (.unknownVariant name "`Upgrade`")

/-- The value of the method member: its name, or an object whose only member has that name and no
value. -/
def readMethod : List Token → Decoded (List Token)
  | .string (some name) :: rest => do
    checkMethod name
    return rest
  | .openObject :: .string (some name) :: rest => do
    checkMethod name
    let rest ← expect .colon rest
    match ← seenFirst rest with
    | .null => expect .closeObject (rest.drop 1)
    | seen => .error (.wrongType seen "unit")
  | _ => .error .malformed

/-- No member that matters may follow. -/
def finish (request : PushRequest) (tokens : List Token) : Decoded (PushRequest × List Token) := do
  match ← nextTag false tokens with
  | (none, rest) => return (request, rest)
  | (some tag, _) => .error (.duplicateField tag.name)

/-- How many containers may be open inside a kept value of an object. -/
def keptDepth : Nat := 126

def readTagged (tokens : List Token) : Decoded (PushRequest × List Token) := do
  match ← nextTag true tokens with
  | (none, _) => .error (.missingField "method")
  | (some .method, rest) =>
    let rest ← readMethod (← expect .colon rest)
    match ← nextTag false rest with
    | (none, _) => .error (.missingField "params")
    | (some .method, _) => .error (.duplicateField "method")
    | (some .params, rest) =>
      let (request, rest) ← record.read (← expect .colon rest)
      finish request rest
  | (some .params, rest) =>
    match Value.read keptDepth (← expect .colon rest) with
    | none => .error .malformed
    | some (kept, rest) =>
      match ← nextTag false rest with
      | (none, _) => .error (.missingField "method")
      | (some .params, _) => .error (.duplicateField "params")
      | (some .method, rest) =>
        let rest ← readMethod (← expect .colon rest)
        finish (← record.ofValue kept) rest

def title : String := "adjacently tagged enum Request"

/-- The elements of a request array: the method and its parameters. -/
def readPair (tokens : List Token) : Decoded (PushRequest × List Token) := do
  match ← nextElement true tokens with
  | (false, _) => .error (.wrongLength 0 title)
  | (true, tokens) =>
    checkMethod (← (← seenFirst tokens).asVariant)
    match ← nextElement false (tokens.drop 1) with
    | (false, _) => .error (.wrongLength 1 title)
    | (true, tokens) =>
      let (request, rest) ← record.read tokens
      return (request, ← expect .closeArray rest)

def read : List Token → Decoded (PushRequest × List Token)
  | .openObject :: rest => readTagged rest
  | .openArray :: rest => readPair rest
  | tokens => do .error (.wrongType (← seenFirst tokens) title)

def ofLine (line : String) : Decoded PushRequest := decodeWhole read line

end PushRequest

/-- The reply of an agent. -/
inductive Reply where
  | ok
  | error (message : String)
  deriving DecidableEq, Inhabited, Repr

namespace Reply

def line : Reply → String
  | .ok => String.ofList (writeObject [writeMember "status" (writeString "ok")])
  | .error message =>
    String.ofList <| writeObject [
      writeMember "status" (writeString "error"),
      writeMember "message" (writeString message)]

def errorRecord : Record (Option String) String where
  title := "struct variant Response::Error"
  fields := ["message"]
  blank := none
  slot draft name := if name = "message" then .ofField draft Seen.asString some else .unknown
  ofObject := Record.required "message"
  ofArray draft count :=
    match draft with
    | some message => .ok message
    | none => .error (.wrongLength count "struct variant Response::Error with 1 element")

/-- The two kinds of replies. -/
inductive Status where
  | ok
  | error
  deriving DecidableEq, Repr

def Status.ofSeen (seen : Seen) : Decoded Status := do
  match ← seen.asVariant with
  | "ok" => return .ok
  | "error" => return .error
  | name => .error (.unknownVariant name "`ok` or `error`")

def readMembers (status : Option Status) (kept : List (String × Value)) (first : Bool)
    (tokens : List Token) : Decoded ((Status × Value) × List Token) :=
  match _hk : nextKey first tokens with
  | .error fault => .error fault
  | .ok (none, rest) =>
    match status with
    | none => .error (.missingField "status")
    | some status => .ok ((status, .object kept.reverse), rest)
  | .ok (some name, rest) =>
    if name = "status" then
      match status, rest with
      | some _, _ => .error (.duplicateField "status")
      | none, .colon :: token :: rest =>
        match token.seen >>= Status.ofSeen with
        | .error fault => .error fault
        | .ok status => readMembers (some status) kept false rest
      | none, _ => .error .malformed
    else
      match rest with
      | .colon :: rest =>
        match _hv : Value.read PushRequest.keptDepth rest with
        | none => .error .malformed
        | some (value, rest) => readMembers status ((name, value) :: kept) false rest
      | _ => .error .malformed
termination_by tokens.length
decreasing_by
  · have := length_of_nextKey _hk
    simp only [List.length_cons] at this
    omega
  · have := length_of_nextKey _hk
    have := Value.length_of_read _hv
    simp only [List.length_cons] at *
    omega

/-- The elements of an array behind the first, as values; the words go on at a separator. -/
def readItems (kept : List Value) (tokens : List Token) : Decoded (List Value × List Token) :=
  match _hn : nextElement false tokens with
  | .error fault => .error fault
  | .ok (false, rest) => .ok (kept.reverse, rest)
  | .ok (true, element) =>
    match _hv : Value.read PushRequest.keptDepth element with
    | none => .error .malformed
    | some (value, rest) => readItems (value :: kept) rest
termination_by tokens.length
decreasing_by
  have := length_of_nextElement _hn
  have := Value.length_of_read _hv
  omega

def title : String := "internally tagged enum Response"

/-- The status and the rest of a reply at the start of the words. -/
def readStatus : List Token → Decoded ((Status × Value) × List Token)
  | .openObject :: rest => readMembers none [] true rest
  | .openArray :: rest => do
    match ← nextElement true rest with
    | (false, _) => .error (.missingField "status")
    | (true, tokens) =>
      let status ← Status.ofSeen (← seenFirst tokens)
      let (items, rest) ← readItems [] (tokens.drop 1)
      return ((status, .array items), rest)
  | tokens => do .error (.wrongType (← seenFirst tokens) title)

def ofKept : Status → Value → Decoded Reply
  | .ok, .array items =>
    if items.isEmpty then .ok .ok
    else .error (.wrongLength items.length (Record.elements 0))
  | .ok, _ => .ok .ok
  | .error, kept => (errorRecord.ofValue kept).map .error

def read (tokens : List Token) : Decoded (Reply × List Token) := do
  let ((status, kept), rest) ← readStatus tokens
  return (← ofKept status kept, rest)

def ofLine (line : String) : Decoded Reply := decodeWhole read line

end Reply

end NodeRollout
