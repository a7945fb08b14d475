import NodeRollout.Proofs.WrittenLines
import NodeRollout.Wire.Message

/-! The messages on the wire. A message is read back from its line, no two messages have one line,
and no field of a message can end its line. -/
namespace NodeRollout

open Json

namespace PushRequest

variable {name : String} {tag : Tag} {rest : List Token}

theorem nextTag_keyTokens (first : Bool) (h : Tag.ofName? name = some tag) :
    nextTag first (keyTokens first name ++ rest) = .ok (some tag, rest) := by
  rw [nextTag]
  split
  all_goals
    rename_i hkey
    rw [nextKey_keyTokens] at hkey
    cases hkey
  simp only [h]

theorem nextTag_closeObject (first : Bool) :
    nextTag first (.closeObject :: rest) = .ok (none, rest) := by
  rw [nextTag]
  rfl

/-- The words of the parameters. -/
def fieldTokens (request : PushRequest) : List Token :=
  .openObject :: (
    keyTokens true "kube_version" ++ .colon :: .string (some request.kubeVersion) :: (
    keyTokens false "os_version" ++ .colon :: .string (some request.osVersion) :: (
    keyTokens false "os_image_url" ++ .colon :: .string (some request.osImageUrl) :: (
    keyTokens false "control_plane" ++ .colon :: .bool request.controlPlane :: [.closeObject]))))

/-- The words of a request line. -/
def lineTokens (request : PushRequest) : List Token :=
  .openObject :: (
    keyTokens true "method" ++ .colon :: .string (some "Upgrade") :: (
    keyTokens false "params" ++ .colon :: (request.fieldTokens ++ [.closeObject])))

theorem lexes_write (request : PushRequest) : Lexes request.write request.fieldTokens :=
  .object (.cons (.member "kube_version" (.string request.kubeVersion)) <|
    .cons (.member "os_version" (.string request.osVersion)) <|
    .cons (.member "os_image_url" (.string request.osImageUrl)) <|
    .cons (.member "control_plane" (.bool request.controlPlane)) .nil)

theorem lexes_line (request : PushRequest) : Lexes request.line.toList request.lineTokens := by
  have hobject := Lexes.object (.cons (.member "method" (.string "Upgrade")) <|
    .cons (.member "params" request.lexes_write) .nil)
  rw [line, String.toList_ofList]
  exact hobject

theorem visible_write (request : PushRequest) : Visible request.write := by
  apply visible_writeObject
  simp only [List.forall_mem_cons]
  exact ⟨visible_writeMember _ (visible_writeString _),
    visible_writeMember _ (visible_writeString _), visible_writeMember _ (visible_writeString _),
    visible_writeMember _ (visible_writeBool _), nofun⟩

theorem visible_line (request : PushRequest) : Visible request.line.toList := by
  rw [line, String.toList_ofList]
  apply visible_writeObject
  simp only [List.forall_mem_cons]
  exact ⟨visible_writeMember _ (visible_writeString _),
    visible_writeMember _ request.visible_write, nofun⟩

theorem read_fieldTokens (request : PushRequest) (rest : List Token) :
    record.read (request.fieldTokens ++ rest) = .ok (request, rest) := by
  have hmembers : record.readMembers record.blank true
      (request.fieldTokens.tail ++ rest) = .ok (⟨some request.kubeVersion, some request.osVersion,
        some request.osImageUrl, some request.controlPlane⟩, rest) := by
    -- each member finds its field free
    calc record.readMembers record.blank true (request.fieldTokens.tail ++ rest)
      _ = record.readMembers ⟨some request.kubeVersion, none, none, none⟩ false _ :=
          record.readMembers_free _ true rfl rfl
      _ = record.readMembers
            ⟨some request.kubeVersion, some request.osVersion, none, none⟩ false _ :=
          record.readMembers_free _ false rfl rfl
      _ = record.readMembers ⟨some request.kubeVersion, some request.osVersion,
            some request.osImageUrl, none⟩ false _ :=
          record.readMembers_free _ false rfl rfl
      _ = record.readMembers ⟨some request.kubeVersion, some request.osVersion,
            some request.osImageUrl, some request.controlPlane⟩ false _ :=
          record.readMembers_free _ false rfl rfl
      _ = _ := record.readMembers_closeObject false
  show (do
    let (draft, rest) ← record.readMembers record.blank true (request.fieldTokens.tail ++ rest)
    return (← record.ofObject draft, rest)) = _
  rw [hmembers]
  rfl

theorem finish_closeObject (request : PushRequest) :
    finish request (.closeObject :: rest) = .ok (request, rest) := by
  rw [finish, nextTag_closeObject]
  rfl

theorem read_lineTokens (request : PushRequest) : read request.lineTokens = .ok (request, []) := by
  have hmethod (rest : List Token) :
      nextTag true (keyTokens true "method" ++ rest) = .ok (some .method, rest) :=
    nextTag_keyTokens true rfl
  have hparams (rest : List Token) :
      nextTag false (keyTokens false "params" ++ rest) = .ok (some .params, rest) :=
    nextTag_keyTokens false rfl
  have hname (rest : List Token) : readMethod (.string (some "Upgrade") :: rest) = .ok rest := rfl
  have hcolon (rest : List Token) : expect .colon (.colon :: rest) = .ok rest := rfl
  show readTagged (keyTokens true "method" ++ _) = _
  simp only [readTagged, hmethod, hcolon, hname, hparams, read_fieldTokens, bind, Except.bind]
  exact finish_closeObject request

theorem ofLine_line (request : PushRequest) : ofLine request.line = .ok request := by
  have hlex : Token.lex request.line.toList = request.lineTokens := request.lexes_line.lex_eq
  rw [ofLine, decodeWhole, hlex, read_lineTokens]

theorem line_injective : Function.Injective line := by
  have hread : ofLine ∘ line = Except.ok := funext ofLine_line
  have hinjective : Function.Injective (ofLine ∘ line) := by
    rw [hread]
    intro a b hok
    exact Except.ok.inj hok
  exact hinjective.of_comp

end PushRequest

namespace Reply

/-- The words of a reply line. -/
def lineTokens : Reply → List Token
  | .ok => .openObject ::
      (keyTokens true "status" ++ .colon :: .string (some "ok") :: [.closeObject])
  | .error message => .openObject :: (
      keyTokens true "status" ++ .colon :: .string (some "error") :: (
      keyTokens false "message" ++ .colon :: .string (some message) :: [.closeObject]))

theorem lexes_line (reply : Reply) : Lexes reply.line.toList reply.lineTokens := by
  cases reply with
  | ok =>
    have hobject := Lexes.object (.cons (.member "status" (.string "ok")) .nil)
    rw [line, String.toList_ofList]
    exact hobject
  | error message =>
    have hobject := Lexes.object (.cons (.member "status" (.string "error")) <|
      .cons (.member "message" (.string message)) .nil)
    rw [line, String.toList_ofList]
    exact hobject

theorem visible_line (reply : Reply) : Visible reply.line.toList := by
  cases reply with
  | ok =>
    rw [line, String.toList_ofList]
    apply visible_writeObject
    simp only [List.forall_mem_cons]
    exact ⟨visible_writeMember _ (visible_writeString _), nofun⟩
  | error message =>
    rw [line, String.toList_ofList]
    apply visible_writeObject
    simp only [List.forall_mem_cons]
    exact ⟨visible_writeMember _ (visible_writeString _),
      visible_writeMember _ (visible_writeString _), nofun⟩

section Members

variable {status : Status} {kept : List (String × Value)} {rest : List Token}

theorem readMembers_status (first : Bool) {token : Token}
    (h : token.seen >>= Status.ofSeen = .ok status) :
    readMembers none kept first (keyTokens first "status" ++ .colon :: token :: rest) =
      readMembers (some status) kept false rest := by
  rw [readMembers]
  split
  all_goals
    rename_i hkey
    rw [nextKey_keyTokens] at hkey
    cases hkey
  simp only [if_true, h]

/-- A member of another name is kept until the end. -/
theorem readMembers_kept (found : Option Status) (first : Bool) {name : String} {value : Value}
    {tokens : List Token} (hname : name ≠ "status")
    (hvalue : Value.read PushRequest.keptDepth tokens = some (value, rest)) :
    readMembers found kept first (keyTokens first name ++ .colon :: tokens) =
      readMembers found ((name, value) :: kept) false rest := by
  rw [readMembers]
  split
  all_goals
    rename_i hkey
    rw [nextKey_keyTokens] at hkey
    cases hkey
  simp only [hname, if_false]
  split
  all_goals
    rename_i hread
    rw [hvalue] at hread
    cases hread
  rfl

theorem readMembers_closeObject (first : Bool) :
    readMembers (some status) kept first (.closeObject :: rest) =
      .ok ((status, .object kept.reverse), rest) := by
  rw [readMembers]
  rfl

end Members

theorem read_lineTokens (reply : Reply) : read reply.lineTokens = .ok (reply, []) := by
  cases reply with
  | ok =>
    have hstatus : readStatus (lineTokens .ok) = .ok ((.ok, .object []), []) := by
      calc readStatus (lineTokens .ok)
        _ = readMembers (some .ok) [] false [.closeObject] := readMembers_status true rfl
        _ = .ok ((.ok, .object []), []) := readMembers_closeObject false
    rw [read, hstatus]
    rfl
  | error message =>
    have hvalue : Value.read PushRequest.keptDepth [.string (some message), .closeObject] =
        some (.string message, [.closeObject]) := rfl
    have hstatus : readStatus (lineTokens (.error message)) =
        .ok ((.error, .object [("message", .string message)]), []) := by
      have hseen : (Token.string (some "error")).seen >>= Status.ofSeen = .ok .error := rfl
      calc readStatus (lineTokens (.error message))
        _ = readMembers (some .error) [] false
              (keyTokens false "message" ++ [Token.colon, .string (some message), .closeObject]) :=
            readMembers_status true hseen
        _ = readMembers (some .error) [("message", .string message)] false [.closeObject] :=
            readMembers_kept _ false (by decide) hvalue
        _ = .ok ((.error, .object [("message", .string message)]), []) :=
            readMembers_closeObject false
    rw [read, hstatus]
    rfl

theorem ofLine_line (reply : Reply) : ofLine reply.line = .ok reply := by
  have hlex : Token.lex reply.line.toList = reply.lineTokens := reply.lexes_line.lex_eq
  rw [ofLine, decodeWhole, hlex, read_lineTokens]

theorem line_injective : Function.Injective line := by
  have hread : ofLine ∘ line = Except.ok := funext ofLine_line
  have hinjective : Function.Injective (ofLine ∘ line) := by
    rw [hread]
    intro a b hok
    exact Except.ok.inj hok
  exact hinjective.of_comp

end Reply

/-- What a proxy and its agent send to each other. -/
inductive Message where
  | request (params : PushRequest)
  | reply (answer : Reply)
  deriving DecidableEq, Inhabited, Repr

namespace Message

def line : Message → String
  | .request params => params.line
  | .reply answer => answer.line

theorem visible_line (message : Message) : Visible message.line.toList := by
  cases message with
  | request params => exact params.visible_line
  | reply answer => exact answer.visible_line

/-- A request and a reply have different names in their first member. -/
theorem line_ne_line (params : PushRequest) (answer : Reply) : params.line ≠ answer.line := by
  intro hline
  have hwords : params.lineTokens = answer.lineTokens := by
    rw [← params.lexes_line.lex_eq, ← answer.lexes_line.lex_eq, hline]
  have hmethod : params.lineTokens[1]? = some (.string (some "method")) := rfl
  have hstatus : answer.lineTokens[1]? = some (.string (some "status")) := by
    cases answer <;> rfl
  rw [hwords, hstatus] at hmethod
  exact absurd hmethod (by decide)

theorem line_injective : Function.Injective line := by
  intro a b hline
  cases a with
  | request r =>
    cases b with
    | request r' => exact congrArg request (PushRequest.line_injective hline)
    | reply s => exact absurd hline (line_ne_line r s)
  | reply s =>
    cases b with
    | request r => exact absurd hline.symm (line_ne_line r s)
    | reply s' => exact congrArg reply (Reply.line_injective hline)

/-- Messages come back as they were sent: each from its line, a stream of them line by line however
it is cut, and no two have one line. -/
theorem round_trip :
    (∀ request : PushRequest, PushRequest.ofLine request.line = .ok request) ∧
    (∀ reply : Reply, Reply.ofLine reply.line = .ok reply) ∧
    (∀ message : Message, ∀ c ∈ message.line.toList, 0x20 ≤ c.toNat) ∧
    (∀ (messages : List Message) (pieces : List (List UInt8)),
      (∀ message ∈ messages, message.line.utf8ByteSize ≤ LineReader.maxLength) →
      pieces.flatten = messages.flatMap (fun message => lineBytes message.line) →
      LineReader.lines pieces = messages.map fun message => .ok message.line) ∧
    Function.Injective line := by
  refine ⟨PushRequest.ofLine_line, Reply.ofLine_line, visible_line, ?_, line_injective⟩
  intro messages pieces hsize hpieces
  have hvisible : ∀ text ∈ messages.map line, Visible text.toList := by
    intro text htext
    obtain ⟨message, -, rfl⟩ := List.mem_map.mp htext
    exact message.visible_line
  have hbytes : pieces.flatten = (messages.map line).flatMap lineBytes := by
    rw [hpieces, List.flatMap_map]
  have hsized : (messages.map line).map LineReader.sized = (messages.map line).map .ok := by
    apply List.map_congr_left
    intro text htext
    obtain ⟨message, hmessage, rfl⟩ := List.mem_map.mp htext
    exact LineReader.sized_of_le (hsize message hmessage)
  calc LineReader.lines pieces
    _ = LineReader.upToFault ((messages.map line).map LineReader.sized) :=
        LineReader.lines_written hvisible hbytes
    _ = (messages.map line).map .ok := by rw [hsized, LineReader.upToFault_ok]
    _ = messages.map fun message => .ok message.line := List.map_map

/-- Messages with line ends, quotes, backslashes and control characters in their fields. -/
def awkwardMessages : List Message := [
  .request ⟨"v1.29.1\n", "Fedora \"CoreOS\"\r\n", "\u0001\\é\u2028", true⟩,
  .reply (.error "exit status: 1: first\nsecond\u0000"),
  .reply .ok]

theorem round_trip_awkward :
    (∀ message ∈ awkwardMessages, message.line.utf8ByteSize ≤ LineReader.maxLength) ∧
    LineReader.lines
      ((awkwardMessages.flatMap fun message => lineBytes message.line).map fun b => [b]) =
      awkwardMessages.map fun message => .ok message.line := by
  have hsize : ∀ message ∈ awkwardMessages,
      message.line.utf8ByteSize ≤ LineReader.maxLength := by decide +kernel
  obtain ⟨-, -, -, hstream, -⟩ := round_trip
  refine ⟨hsize, hstream awkwardMessages _ hsize ?_⟩
  exact List.flatMap_singleton' _

end Message

end NodeRollout
