import NodeRollout.Proofs.Connection
import NodeRollout.Wire.Client

/-! What the caller of an agent is told. A reply is read as it was meant unless its line is too
long; the length of a failure's reply is that of its text with the escapes, and nothing bounds it. -/
namespace NodeRollout

open Program LineReader Server

section Size

/-- How many bytes characters take. -/
def bytesOf : List Char → Nat
  | [] => 0
  | c :: cs => c.utf8Size + bytesOf cs

theorem bytesOf_append (cs ds : List Char) : bytesOf (cs ++ ds) = bytesOf cs + bytesOf ds := by
  induction cs with
  | nil => rw [List.nil_append, bytesOf, Nat.zero_add]
  | cons c cs ih => rw [List.cons_append, bytesOf, ih, bytesOf, Nat.add_assoc]

theorem bytesOf_replicate (n : Nat) (c : Char) :
    bytesOf (List.replicate n c) = n * c.utf8Size := by
  induction n with
  | zero => rw [List.replicate_zero, bytesOf, Nat.zero_mul]
  | succ n ih => rw [List.replicate_succ, bytesOf, ih, Nat.succ_mul, Nat.add_comm]

theorem utf8ByteSize_ofList (cs : List Char) : (String.ofList cs).utf8ByteSize = bytesOf cs := by
  induction cs with
  | nil => rfl
  | cons c cs ih =>
    rw [String.ofList_cons, String.utf8ByteSize_append, String.utf8ByteSize_singleton, ih, bytesOf]

/-- Escaping makes a character never shorter, and at most six times as long. -/
theorem bytesOf_escape (c : Char) :
    c.utf8Size ≤ bytesOf (Json.escape c) ∧ bytesOf (Json.escape c) ≤ 6 * c.utf8Size := by
  unfold Json.escape
  split
  · decide
  · decide
  · decide
  · decide
  · decide
  · decide
  · decide
  · split
    next hcontrol =>
      have hdigits : ∀ n < 0x20, (Json.hexDigit (n / 16)).utf8Size = 1 ∧
          (Json.hexDigit (n % 16)).utf8Size = 1 := by decide
      obtain ⟨hhigh, hlow⟩ := hdigits c.toNat hcontrol
      have hescape : bytesOf ['\\', 'u', '0', '0', Json.hexDigit (c.toNat / 16),
          Json.hexDigit (c.toNat % 16)] = 6 := by
        simp only [bytesOf, hhigh, hlow]
        rfl
      have hpos : 0 < c.utf8Size := c.utf8Size_pos
      have hfour : c.utf8Size ≤ 4 := c.utf8Size_le_four
      omega
    next =>
      have hsame : bytesOf [c] = c.utf8Size := by simp [bytesOf]
      omega

theorem bytesOf_flatMap_escape (cs : List Char) :
    bytesOf cs ≤ bytesOf (cs.flatMap Json.escape) ∧
      bytesOf (cs.flatMap Json.escape) ≤ 6 * bytesOf cs := by
  induction cs with
  | nil => decide
  | cons c cs ih =>
    obtain ⟨hlow, hhigh⟩ := bytesOf_escape c
    rw [List.flatMap_cons, bytesOf_append, bytesOf]
    omega

theorem bytesOf_writeString (s : String) :
    bytesOf (Json.writeString s) = 2 + bytesOf (s.toList.flatMap Json.escape) := by
  have hquote : '"'.utf8Size = 1 := by decide
  have hend : bytesOf ['"'] = 1 := by decide
  rw [Json.writeString, bytesOf_append, bytesOf, hquote, hend]
  omega

theorem bytesOf_writeMember (name : String) (value : List Char) :
    bytesOf (Json.writeMember name value) =
      bytesOf (Json.writeString name) + 1 + bytesOf value := by
  have hcolon : ':'.utf8Size = 1 := by decide
  rw [Json.writeMember, bytesOf_append, bytesOf, hcolon, Nat.add_assoc]

/-- The reply line of a failure: its text with the escapes, and 31 bytes around it. -/
theorem utf8ByteSize_error (text : String) :
    (Reply.error text).line.utf8ByteSize = 31 + bytesOf (text.toList.flatMap Json.escape) := by
  have hstatus : bytesOf (Json.writeMember "status" (Json.writeString "error")) = 16 := by decide
  have hname : bytesOf (Json.writeString "message") = 9 := by decide
  have hopen : '{'.utf8Size = 1 := by decide
  have hcomma : bytesOf [','] = 1 := by decide
  have hclose : bytesOf ['}'] = 1 := by decide
  rw [Reply.line, utf8ByteSize_ofList, Json.writeObject, List.intercalate_cons_cons,
    List.intercalate_singleton, bytesOf_append, bytesOf, bytesOf_append, bytesOf_append,
    bytesOf_writeMember "message", bytesOf_writeString text, hstatus, hname, hopen, hcomma, hclose]
  omega

end Size

namespace Client

/-- The caller is told what became of the request at the agent. -/
structure Truthful (result reported : Except Failure Unit) : Prop where
  done : reported = .ok () ↔ result = .ok ()
  failed : ∀ text, reported = .error (.remote text) ↔
    ∃ failure, result = .error failure ∧ failure.message = text
  reached : ∀ failure path reason, result = .error failure →
    reported ≠ .error (.rpcUnavailable path reason)

theorem truthful_ofReply (result : Except Failure Unit) :
    Truthful result (ofReply (replyTo result)) := by
  cases result with
  | ok _ => exact ⟨⟨fun _ => rfl, fun _ => rfl⟩, by simp [replyTo, ofReply], nofun⟩
  | error failure =>
    refine ⟨⟨nofun, nofun⟩, fun text => ?_, by simp [replyTo, ofReply]⟩
    constructor
    · intro h
      cases h
      exact ⟨failure, rfl, rfl⟩
    · rintro ⟨_, hfailure, rfl⟩
      cases hfailure
      rfl

theorem not_truthful_unavailable (result : Except Failure Unit) (path reason : String) :
    ¬ Truthful result (.error (.rpcUnavailable path reason)) := by
  intro h
  cases result with
  | ok _ => exact nomatch h.done.mpr rfl
  | error failure => exact h.reached failure path reason rfl rfl

/-- The first line of the answer decides, and it has to be short enough. -/
theorem result_answered {reply : Reply} {received : List (List UInt8)} (path : String)
    (h : received.flatten = lineBytes reply.line) : result path (.answered received) =
      if reply.line.utf8ByteSize ≤ maxLength then ofReply reply
      else .error (.rpcUnavailable path "max line length exceeded") := by
  have hvisible : ∀ line ∈ [reply.line], Json.Visible line.toList := by
    simpa using reply.visible_line
  have hbytes : received.flatten = [reply.line].flatMap lineBytes := by
    rw [h, List.flatMap_singleton]
  have hlines : LineReader.lines received = upToFault [sized reply.line] :=
    lines_written hvisible hbytes
  split_ifs with hsize
  · have hfirst : LineReader.lines received = [.ok reply.line] := by
      rw [hlines, sized_of_le hsize]
      rfl
    simp only [result, hfirst, reply.ofLine_line]
  · have hfirst : LineReader.lines received = [.error .tooLong] := by
      rw [hlines, sized_of_lt (Nat.not_le.mp hsize)]
      rfl
    simp only [result, hfirst]
    rfl

/-- What an agent does when it gets one request: it asks the handler, and sends the outcome. -/
def callLog (request : PushRequest) (outcome : Except Failure Unit) : List (Event ServerWorld) :=
  [⟨.handle request, outcome⟩, ⟨.send (replyTo outcome), ()⟩]

theorem answered_line_iff {request : PushRequest} {block : List (Event ServerWorld)} :
    Answered request.line block ↔ ∃ outcome, block = callLog request outcome := by
  constructor
  · -- the line reads as the request, so no other case is left
    intro h
    cases h with
    | done hread =>
      cases request.ofLine_line.symm.trans hread
      exact ⟨.ok (), rfl⟩
    | @failed _ failure hread =>
      cases request.ofLine_line.symm.trans hread
      exact ⟨.error failure, rfl⟩
    | refused hread => cases request.ofLine_line.symm.trans hread
  · rintro ⟨outcome, rfl⟩
    cases outcome with
    | ok _ => exact .done request.ofLine_line
    | error failure => exact .failed request.ofLine_line

theorem callLog_inj {request : PushRequest} {outcome other : Except Failure Unit}
    (h : callLog request outcome = callLog request other) : outcome = other := by
  injection h with hcall _
  injection hcall

theorem written_callLog (request : PushRequest) (outcome : Except Failure Unit) :
    written (callLog request outcome) = lineBytes (replyTo outcome).line :=
  List.append_nil _

section Push

variable {request : PushRequest} {sent received : List (List UInt8)}
  {log : List (Event ServerWorld)}

/-- The handler is asked once, whatever comes of it. -/
theorem runs_request_iff (hsize : request.line.utf8ByteSize ≤ maxLength)
    (hsent : sent.flatten = lineBytes request.line) :
    Runs (session (LineReader.lines sent)) log () ↔
      ∃ outcome, log = callLog request outcome := by
  have hvisible : ∀ line ∈ [request.line], Json.Visible line.toList := by
    simpa using request.visible_line
  have hbytes : sent.flatten = [request.line].flatMap lineBytes := by
    rw [hsent, List.flatMap_singleton]
  have hlines : LineReader.lines sent = [request.line].map .ok := by
    rw [lines_written hvisible hbytes, List.map_singleton, sized_of_le hsize]
    rfl
  rw [hlines, runs_session_iff]
  constructor
  · rintro ⟨blocks, hblocks, rfl⟩
    obtain _ | ⟨hblock, hnone⟩ := hblocks
    cases hnone
    obtain ⟨outcome, rfl⟩ := answered_line_iff.mp hblock
    exact ⟨outcome, rfl⟩
  · rintro ⟨outcome, rfl⟩
    have hblock : Answered request.line (callLog request outcome) :=
      answered_line_iff.mpr ⟨outcome, rfl⟩
    exact ⟨[callLog request outcome], .cons hblock .nil, rfl⟩

end Push

/-- Room for the reply: a success always has it, and a failure with a text of up to 10917 bytes. -/
theorem replyTo_fits {outcome : Except Failure Unit}
    (h : ∀ failure, outcome = .error failure → failure.message.utf8ByteSize ≤ 10917) :
    (replyTo outcome).line.utf8ByteSize ≤ maxLength := by
  cases outcome with
  | ok _ =>
    show Reply.ok.line.utf8ByteSize ≤ 65536
    decide +kernel
  | error failure =>
    have htext : failure.message.utf8ByteSize ≤ 10917 := h failure rfl
    have hbytes : bytesOf failure.message.toList = failure.message.utf8ByteSize := by
      rw [← utf8ByteSize_ofList, String.ofList_toList]
    obtain ⟨-, hescaped⟩ := bytesOf_flatMap_escape failure.message.toList
    show (Reply.error failure.message).line.utf8ByteSize ≤ 65536
    rw [utf8ByteSize_error]
    omega

/-- There is none for a failure with a text of more than 65505 bytes. -/
theorem not_replyTo_fits {failure : Failure} (h : 65505 < failure.message.utf8ByteSize) :
    maxLength < (replyTo (.error failure)).line.utf8ByteSize := by
  have hbytes : bytesOf failure.message.toList = failure.message.utf8ByteSize := by
    rw [← utf8ByteSize_ofList, String.ofList_toList]
  obtain ⟨hescaped, -⟩ := bytesOf_flatMap_escape failure.message.toList
  show 65536 < (Reply.error failure.message).line.utf8ByteSize
  rw [utf8ByteSize_error]
  omega

/-- A call whose request is short enough, however the bytes are cut on both ways. A success is
always told. The caller is told what became of the request exactly when the line of the reply is no
longer than a line may be; a longer one makes the agent seem out of reach, though it was asked. -/
theorem push_truthful_iff {request : PushRequest} {sent received : List (List UInt8)}
    {log : List (Event ServerWorld)} (hsize : request.line.utf8ByteSize ≤ maxLength)
    (hsent : sent.flatten = lineBytes request.line)
    (hrun : Runs (session (LineReader.lines sent)) log ())
    (hreceived : received.flatten = written log) (path : String) :
    ∃ outcome, log = callLog request outcome ∧
      (result path (.answered received) = .ok () ↔ outcome = .ok ()) ∧
      (Truthful outcome (result path (.answered received)) ↔
        (replyTo outcome).line.utf8ByteSize ≤ maxLength) ∧
      (maxLength < (replyTo outcome).line.utf8ByteSize →
        result path (.answered received) =
          .error (.rpcUnavailable path "max line length exceeded")) := by
  obtain ⟨outcome, rfl⟩ := (runs_request_iff hsize hsent).mp hrun
  have hbytes : received.flatten = lineBytes (replyTo outcome).line := by
    rw [hreceived, written_callLog]
  have hresult := result_answered path hbytes
  by_cases hfits : (replyTo outcome).line.utf8ByteSize ≤ maxLength
  · -- the reply is read as it was sent
    rw [if_pos hfits] at hresult
    rw [hresult]
    have htruthful : Truthful outcome (ofReply (replyTo outcome)) := truthful_ofReply outcome
    exact ⟨outcome, rfl, htruthful.done, ⟨fun _ => hfits, fun _ => htruthful⟩,
      fun hlong => absurd hfits (Nat.not_le.mpr hlong)⟩
  · -- only a failure can be this long
    rw [if_neg hfits] at hresult
    rw [hresult]
    have hfailed : outcome ≠ .ok () := by
      rintro rfl
      exact hfits (replyTo_fits nofun)
    exact ⟨outcome, rfl, ⟨nofun, fun h => absurd h hfailed⟩,
      ⟨fun h => absurd h (not_truthful_unavailable outcome path _), fun h => absurd h hfits⟩,
      fun _ => rfl⟩

section Samples

/-- The failure of a command that says this on its standard error. -/
def failedWith (stderr : String) : Failure :=
  .commandFailed "kubeadm upgrade node" ("exit status: 1: " ++ stderr)

theorem le_size_failedWith (stderr : String) :
    stderr.utf8ByteSize ≤ (failedWith stderr).message.utf8ByteSize := by
  have hmessage : (failedWith stderr).message =
      "Command `kubeadm upgrade node` failed: " ++ ("exit status: 1: " ++ stderr) := rfl
  rw [hmessage, String.utf8ByteSize_append, String.utf8ByteSize_append]
  omega

/-- The agent's answer to one request, in one piece. -/
def answerTo (outcome : Except Failure Unit) : List (List UInt8) :=
  [lineBytes (replyTo outcome).line]

theorem flatten_answerTo (request : PushRequest) (outcome : Except Failure Unit) :
    (answerTo outcome).flatten = written (callLog request outcome) :=
  (List.append_nil _).trans (written_callLog request outcome).symm

theorem plainRequest_fits : plainRequest.line.utf8ByteSize ≤ maxLength := by decide +kernel

theorem flatten_plainRequest :
    [lineBytes plainRequest.line].flatten = lineBytes plainRequest.line := List.append_nil _

theorem runs_plainRequest (outcome : Except Failure Unit) :
    Runs (session (LineReader.lines [lineBytes plainRequest.line]))
      (callLog plainRequest outcome) () :=
  (runs_request_iff plainRequest_fits flatten_plainRequest).mpr ⟨outcome, rfl⟩

def quorumLost : Failure := failedWith "lost \"etcd\"\nquorum"

theorem push_truthful_iff_quorumLost :
    plainRequest.line.utf8ByteSize ≤ maxLength ∧
    Runs (session (LineReader.lines [lineBytes plainRequest.line]))
      (callLog plainRequest (.error quorumLost)) () ∧
    Truthful (.error quorumLost)
      (result "/run/nodeup/agent.sock" (.answered (answerTo (.error quorumLost)))) := by
  obtain ⟨outcome, hlog, -, htruthful, -⟩ :=
    push_truthful_iff plainRequest_fits flatten_plainRequest (runs_plainRequest (.error quorumLost))
      (flatten_answerTo plainRequest (.error quorumLost)) "/run/nodeup/agent.sock"
  obtain rfl := callLog_inj hlog
  have hshort : quorumLost.message.utf8ByteSize ≤ 10917 := by decide +kernel
  have hfits : (replyTo (.error quorumLost)).line.utf8ByteSize ≤ maxLength := by
    apply replyTo_fits
    intro failure hfailure
    cases hfailure
    exact hshort
  exact ⟨plainRequest_fits, runs_plainRequest _, htruthful.mpr hfits⟩

/-- A failure with 64 KiB of standard error is not told: the agent is said to be out of reach. -/
theorem not_truthful_of_long_output :
    ¬ ∀ (request : PushRequest) (sent received : List (List UInt8)) (log : List (Event ServerWorld))
      (outcome : Except Failure Unit) (path : String),
      request.line.utf8ByteSize ≤ maxLength → sent.flatten = lineBytes request.line →
      Runs (session (LineReader.lines sent)) log () → ⟨.handle request, outcome⟩ ∈ log →
      received.flatten = written log → Truthful outcome (result path (.answered received)) := by
  intro hall
  let failure := failedWith (String.ofList (List.replicate 65536 'x'))
  have hstderr : (String.ofList (List.replicate 65536 'x')).utf8ByteSize = 65536 := by
    rw [utf8ByteSize_ofList, bytesOf_replicate]
    rfl
  have hlong : 65505 < failure.message.utf8ByteSize := by
    calc 65505
      _ < (String.ofList (List.replicate 65536 'x')).utf8ByteSize := by rw [hstderr]; decide
      _ ≤ failure.message.utf8ByteSize := le_size_failedWith _
  have htruthful : Truthful (.error failure)
      (result "/run/nodeup/agent.sock" (.answered (answerTo (.error failure)))) :=
    hall plainRequest [lineBytes plainRequest.line] _ _ _ _ plainRequest_fits flatten_plainRequest
      (runs_plainRequest (.error failure)) List.mem_cons_self
      (flatten_answerTo plainRequest (.error failure))
  have hresult : result "/run/nodeup/agent.sock" (.answered (answerTo (.error failure))) =
      .error (.rpcUnavailable "/run/nodeup/agent.sock" "max line length exceeded") := by
    rw [result_answered _ (List.append_nil _), if_neg (Nat.not_le.mpr (not_replyTo_fits hlong))]
  rw [hresult] at htruthful
  exact not_truthful_unavailable _ _ _ htruthful

end Samples

end Client

end NodeRollout
