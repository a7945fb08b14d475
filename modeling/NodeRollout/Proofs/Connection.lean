import NodeRollout.Proofs.Messages
import NodeRollout.Wire.Server

/-! What a connection does with its stream. The lines before the first one that cannot be read are
answered one by one: the handler is asked for each that is a request, and every line has its
reply. -/
namespace NodeRollout.Server

open Program LineReader

/-- What becomes of one line. A request is carried out, and its result is the reply; any other line
is refused without asking the handler. -/
inductive Answered (line : String) : List (Event ServerWorld) → Prop where
  | done {request : PushRequest} (reads : PushRequest.ofLine line = .ok request) :
      Answered line [⟨.handle request, .ok ()⟩, ⟨.send .ok, ()⟩]
  | failed {request : PushRequest} {failure : Failure}
      (reads : PushRequest.ofLine line = .ok request) :
      Answered line [⟨.handle request, .error failure⟩, ⟨.send (.error failure.message), ()⟩]
  | refused {fault : Json.Fault} (reads : PushRequest.ofLine line = .error fault) :
      Answered line [⟨.send (.error ("invalid request: " ++ fault.message)), ()⟩]

/-- The requests that the handler was asked for. -/
def handled (log : List (Event ServerWorld)) : List PushRequest :=
  log.filterMap fun
    | ⟨.handle request, _⟩ => some request
    | ⟨.send _, _⟩ => none

def replies (log : List (Event ServerWorld)) : List Reply :=
  log.filterMap fun
    | ⟨.handle _, _⟩ => none
    | ⟨.send reply, _⟩ => some reply

/-- The bytes that the server sent. -/
def written (log : List (Event ServerWorld)) : List UInt8 :=
  (replies log).flatMap fun reply => lineBytes reply.line

theorem session_readable (lines : List Framed) :
    session lines = session ((readable lines).map .ok) := by
  induction lines with
  | nil => rfl
  | cons line lines ih =>
    cases line with
    | error fault => rfl
    | ok line =>
      show (do
        let reply ← answer line
        call (I := ServerWorld) (.send reply)
        session lines) = _
      rw [ih]
      rfl

/-- The runs of a session are those of its first line followed by those of the rest. -/
theorem runs_line_iff {line : String} {rest : Program ServerWorld Unit}
    {log : List (Event ServerWorld)} :
    Runs (do
        let reply ← answer line
        call (I := ServerWorld) (.send reply)
        rest) log () ↔
      ∃ block more, Answered line block ∧ Runs rest more () ∧ log = block ++ more := by
  constructor
  · -- a request takes two calls, and the result of the first decides the reply
    intro hrun
    cases hread : PushRequest.ofLine line with
    | ok request =>
      rw [answer, hread] at hrun
      obtain _ | ⟨result, hrun⟩ := hrun
      obtain _ | ⟨_, hrun⟩ := hrun
      cases result with
      | ok _ => exact ⟨_, _, .done hread, hrun, rfl⟩
      | error failure => exact ⟨_, _, .failed hread, hrun, rfl⟩
    | error fault =>
      rw [answer, hread] at hrun
      obtain _ | ⟨_, hrun⟩ := hrun
      exact ⟨_, _, .refused hread, hrun, rfl⟩
  · rintro ⟨block, more, hblock, hrun, rfl⟩
    cases hblock with
    | done hread =>
      rw [answer, hread]
      exact .ask _ (.ask _ hrun)
    | failed hread =>
      rw [answer, hread]
      exact .ask _ (.ask _ hrun)
    | refused hread =>
      rw [answer, hread]
      exact .ask _ hrun

theorem runs_session_iff (lines : List String) (log : List (Event ServerWorld)) :
    Runs (session (lines.map .ok)) log () ↔
      ∃ blocks, List.Forall₂ Answered lines blocks ∧ log = blocks.flatten := by
  induction lines generalizing log with
  | nil =>
    constructor
    · intro hrun
      cases hrun
      exact ⟨[], .nil, rfl⟩
    · rintro ⟨blocks, hblocks, rfl⟩
      cases hblocks
      exact .done ()
  | cons line lines ih =>
    constructor
    · intro hrun
      obtain ⟨block, more, hblock, hmore, rfl⟩ := runs_line_iff.mp hrun
      obtain ⟨blocks, hblocks, rfl⟩ := (ih more).mp hmore
      exact ⟨block :: blocks, .cons hblock hblocks, rfl⟩
    · rintro ⟨blocks, hblocks, rfl⟩
      cases hblocks with
      | @cons _ block _ blocks hblock hblocks =>
        have hmore : Runs (session (lines.map .ok)) blocks.flatten () :=
          (ih blocks.flatten).mpr ⟨blocks, hblocks, rfl⟩
        exact runs_line_iff.mpr ⟨block, blocks.flatten, hblock, hmore, rfl⟩

namespace Answered

variable {line : String} {block : List (Event ServerWorld)}

theorem handled_eq (h : Answered line block) :
    handled block = (PushRequest.ofLine line).toOption.toList := by
  cases h with
  | done hread => rw [hread]; rfl
  | failed hread => rw [hread]; rfl
  | refused hread => rw [hread]; rfl

theorem length_replies (h : Answered line block) : (replies block).length = 1 := by
  cases h <;> rfl

end Answered

theorem handled_append (log more : List (Event ServerWorld)) :
    handled (log ++ more) = handled log ++ handled more := List.filterMap_append

theorem replies_append (log more : List (Event ServerWorld)) :
    replies (log ++ more) = replies log ++ replies more := List.filterMap_append

section Blocks

variable {lines : List String} {blocks : List (List (Event ServerWorld))}

theorem handled_flatten (h : List.Forall₂ Answered lines blocks) :
    handled blocks.flatten = lines.filterMap fun line => (PushRequest.ofLine line).toOption := by
  induction h with
  | nil => rfl
  | @cons line block lines blocks hblock _ ih =>
    rw [List.flatten_cons, handled_append, hblock.handled_eq, ih]
    cases hread : PushRequest.ofLine line with
    | ok request => rw [List.filterMap_cons_some (by rw [hread]; rfl)]; rfl
    | error fault => rw [List.filterMap_cons_none (by rw [hread]; rfl)]; rfl

theorem length_replies_flatten (h : List.Forall₂ Answered lines blocks) :
    (replies blocks.flatten).length = lines.length := by
  induction h with
  | nil => rfl
  | @cons line block lines blocks hblock _ ih =>
    rw [List.flatten_cons, replies_append, List.length_append, hblock.length_replies, ih,
      List.length_cons, Nat.add_comm]

end Blocks

/-- The replies on the wire are as many lines. -/
theorem rawLines_written (log : List (Event ServerWorld)) :
    rawLines (written log) = (replies log).map fun reply => reply.line.toUTF8.toList := by
  have hbytes : written log =
      ((replies log).map fun reply => reply.line.toUTF8.toList).flatMap (· ++ [lineFeed]) := by
    rw [List.flatMap_map]
    rfl
  rw [hbytes]
  apply rawLines_flatMap
  intro bytes hmem
  obtain ⟨reply, -, rfl⟩ := List.mem_map.mp hmem
  exact not_mem_toUTF8 reply.visible_line (by decide)

/-- One connection, whatever is sent on it and however it is cut. Its runs are exactly those in
which the lines of the stream are answered one after another; so the handler is asked for the
requests among them in their order and for nothing else, and there is one line of reply for each
line. -/
theorem session_answers (pieces : List (List UInt8)) :
    (∀ log, Runs (session (LineReader.lines pieces)) log () ↔
      ∃ blocks, List.Forall₂ Answered (streamLines pieces.flatten) blocks ∧
        log = blocks.flatten) ∧
    ∀ log, Runs (session (LineReader.lines pieces)) log () →
      handled log = (streamLines pieces.flatten).filterMap
        (fun line => (PushRequest.ofLine line).toOption) ∧
      (replies log).length = (streamLines pieces.flatten).length ∧
      rawLines (written log) = (replies log).map fun reply => reply.line.toUTF8.toList := by
  have hlines : session (LineReader.lines pieces) =
      session ((streamLines pieces.flatten).map .ok) := by
    rw [session_readable, readable_lines]
  have hruns : ∀ log, Runs (session (LineReader.lines pieces)) log () ↔
      ∃ blocks, List.Forall₂ Answered (streamLines pieces.flatten) blocks ∧
        log = blocks.flatten := by
    intro log
    rw [hlines]
    exact runs_session_iff _ log
  refine ⟨hruns, fun log hrun => ?_⟩
  obtain ⟨blocks, hblocks, rfl⟩ := (hruns log).mp hrun
  exact ⟨handled_flatten hblocks, length_replies_flatten hblocks, rawLines_written _⟩

def plainRequest : PushRequest := ⟨"v1.29.1", "", "", true⟩

/-- A request whose line feed comes late, a line that is no request, an empty one, one that is no
text, and a request behind it. -/
def mixedStream : List (List UInt8) := [
  plainRequest.line.toUTF8.toList ++ [carriageReturn],
  lineFeed :: "not json".toUTF8.toList,
  [lineFeed, lineFeed, 0xff],
  lineFeed :: lineBytes plainRequest.line]

/-- The handler fails, and the two lines behind the request are refused. -/
def mixedLog : List (Event ServerWorld) := [
  ⟨.handle plainRequest, .error (.commandFailed "kubeadm upgrade node" "exit status: 1")⟩,
  ⟨.send (.error "Command `kubeadm upgrade node` failed: exit status: 1"), ()⟩,
  ⟨.send (.error "invalid request: <malformed json>"), ()⟩,
  ⟨.send (.error "invalid request: <malformed json>"), ()⟩]

theorem session_answers_mixed :
    Runs (session (LineReader.lines mixedStream)) mixedLog () ∧ handled mixedLog = [plainRequest] ∧
      (replies mixedLog).length = 3 := by
  have hlines : streamLines mixedStream.flatten = [plainRequest.line, "not json", ""] := by
    decide +kernel
  have hbad : PushRequest.ofLine "not json" = .error .malformed := by decide +kernel
  have hempty : PushRequest.ofLine "" = .error .malformed := by decide +kernel
  obtain ⟨hruns, hresults⟩ := session_answers mixedStream
  have hrun : Runs (session (LineReader.lines mixedStream)) mixedLog () := by
    rw [hruns, hlines]
    exact ⟨_, .cons (.failed plainRequest.ofLine_line) <| .cons (.refused hbad) <|
      .cons (.refused hempty) .nil, rfl⟩
  obtain ⟨hhandled, hreplies, -⟩ := hresults mixedLog hrun
  refine ⟨hrun, ?_, ?_⟩
  · rw [hhandled, hlines]
    simp [plainRequest.ofLine_line, hbad, hempty, Except.toOption]
  · rw [hreplies, hlines]
    rfl

end NodeRollout.Server
