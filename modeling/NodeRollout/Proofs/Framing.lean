import Mathlib.Data.List.Basic
import NodeRollout.Wire.Line

/-! The lines of a stream, read byte by byte, are its parts between line feeds: which lines there
are does not depend on how the stream is cut, and the first part that is too long or no text ends
them. -/
namespace NodeRollout

namespace LineReader

/-- Bytes without one carriage return at their end. -/
def dropReturn (bytes : List UInt8) : List UInt8 :=
  if bytes.getLast? = some carriageReturn then bytes.dropLast else bytes

/-- The lines among the parts between line feeds. What follows the last line feed is a line too,
unless it is empty or a carriage return alone. -/
def linesOfParts : List (List UInt8) → List (List UInt8)
  | [] => []
  | [rest] => if rest = [] ∨ rest = [carriageReturn] then [] else [rest]
  | line :: parts => line :: linesOfParts parts

def rawLines (bytes : List UInt8) : List (List UInt8) := linesOfParts (bytes.splitOn lineFeed)

/-- What the bytes of one line are read as. -/
def frame (raw : List UInt8) : Framed :=
  if maxLength < raw.length then .error .tooLong
  else match Text.ofBytes? (dropReturn raw) with
    | some line => .ok line
    | none => .error .notText

/-- Everything up to the first fault. -/
def upToFault : List Framed → List Framed
  | [] => []
  | .ok line :: rest => .ok line :: upToFault rest
  | .error fault :: _ => [.error fault]

/-- The lines before the first fault. -/
def readable : List Framed → List String
  | .ok line :: rest => line :: readable rest
  | _ => []

/-- The lines of a stream before the first one that is too long or no text. -/
def streamLines (bytes : List UInt8) : List String := readable ((rawLines bytes).map frame)

theorem linesOfParts_cons {parts : List (List UInt8)} (line : List UInt8) (h : parts ≠ []) :
    linesOfParts (line :: parts) = line :: linesOfParts parts := by
  cases parts with
  | nil => exact absurd rfl h
  | cons part parts => rfl

/-- A part of more than one byte is a line, also where the stream ends in it. -/
theorem linesOfParts_long {line : List UInt8} (parts : List (List UInt8)) (h : 1 < line.length) :
    linesOfParts (line :: parts) = line :: linesOfParts parts := by
  cases parts with
  | nil =>
    have hrest : ¬ (line = [] ∨ line = [carriageReturn]) := by
      rintro (rfl | rfl) <;> simp at h
    exact if_neg hrest
  | cons part parts => rfl

theorem frame_of_long {raw : List UInt8} (h : maxLength < raw.length) :
    frame raw = .error .tooLong := if_pos h

/-- The bytes that the reader holds in reverse are read as the line that they are. -/
theorem lineOf_eq_frame {taken : List UInt8} (h : taken.length ≤ maxLength) :
    lineOf taken = frame taken.reverse := by
  have hshort : ¬ maxLength < taken.reverse.length := by
    rw [List.length_reverse]
    exact Nat.not_lt.mpr h
  rw [frame, if_neg hshort]
  cases taken with
  | nil => rfl
  | cons b rest =>
    have hdrop : dropReturn (b :: rest).reverse =
        if b = carriageReturn then rest.reverse else (b :: rest).reverse := by
      simp [dropReturn]
    rw [hdrop]
    rfl

theorem upToFault_singleton (line : Framed) : upToFault [line] = [line] := by
  cases line <;> rfl

/-- A fault and what is behind it add no line that can be read. -/
theorem readable_upToFault (lines : List Framed) : readable (upToFault lines) = readable lines := by
  induction lines with
  | nil => rfl
  | cons line lines ih =>
    cases line with
    | error fault => rfl
    | ok line => exact congrArg (line :: ·) ih

theorem feed_append (reader : LineReader) (a b : List UInt8) :
    reader.feed (a ++ b) = (((reader.feed a).1.feed b).1,
      (reader.feed a).2 ++ ((reader.feed a).1.feed b).2) := by
  induction a generalizing reader with
  | nil => rfl
  | cons x a ih =>
    simp only [List.cons_append, feed, ih, List.append_assoc]

/-- Only the bytes matter, not how they are cut into pieces. -/
theorem linesFrom_flatten (reader : LineReader) (pieces : List (List UInt8)) :
    reader.linesFrom pieces = reader.linesFrom [pieces.flatten] := by
  induction pieces generalizing reader with
  | nil => rfl
  | cons piece pieces ih =>
    simp only [List.flatten_cons, linesFrom, ih, feed_append, List.append_assoc]

/-- After a fault nothing is read any more. -/
theorem linesFrom_ended (bytes : List UInt8) :
    ({ ended := true } : LineReader).linesFrom [bytes] = [] := by
  have hfeed : ({ ended := true } : LineReader).feed bytes = ({ ended := true }, []) := by
    induction bytes with
    | nil => rfl
    | cons b bytes ih =>
      rw [feed]
      simp [step, ih]
  simp [linesFrom, hfeed, finish]

theorem linesFrom_cons (reader : LineReader) (b : UInt8) (bytes : List UInt8) :
    reader.linesFrom [b :: bytes] = (reader.step b).2 ++ (reader.step b).1.linesFrom [bytes] := by
  simp only [linesFrom, feed, List.append_assoc]

/-- The reader in the middle of a line, with these bytes of it in reverse. -/
def within (taken : List UInt8) : LineReader := { taken, length := taken.length }

theorem exists_cons_of_splitOnPPrepend (p : UInt8 → Bool) (bytes taken : List UInt8) :
    ∃ more parts, List.splitOnPPrepend p bytes taken = (taken.reverse ++ more) :: parts := by
  rw [List.splitOnPPrepend_eq_modifyHead]
  obtain ⟨first, parts, hparts⟩ := List.exists_cons_of_ne_nil (List.splitOnP_ne_nil p bytes)
  rw [hparts]
  exact ⟨first, parts, rfl⟩

theorem linesFrom_within (bytes : List UInt8) {taken : List UInt8}
    (h : taken.length ≤ maxLength) : (within taken).linesFrom [bytes] =
      upToFault ((linesOfParts (List.splitOnPPrepend (· == lineFeed) bytes taken)).map frame) := by
  -- induction over the bytes; the line so far moves from the bytes into the reader
  induction bytes generalizing taken with
  | nil =>
    rw [List.splitOnPPrepend_nil]
    have hfinish : (within taken).linesFrom [[]] =
        if taken = [] ∨ taken = [carriageReturn] then [] else [lineOf taken] := by
      simp [linesFrom, feed, finish, within]
    have hreverse : taken.reverse = [] ∨ taken.reverse = [carriageReturn] ↔
        taken = [] ∨ taken = [carriageReturn] := by
      simp [List.reverse_eq_iff]
    rw [hfinish]
    by_cases hrest : taken = [] ∨ taken = [carriageReturn]
    · rw [if_pos hrest, linesOfParts, if_pos (hreverse.mpr hrest)]
      rfl
    · rw [if_neg hrest, linesOfParts, if_neg (hreverse.not.mpr hrest), lineOf_eq_frame h]
      exact (upToFault_singleton _).symm
  | cons b bytes ih =>
    rw [linesFrom_cons]
    by_cases hfeed : b = lineFeed
    · -- the line ends here, and the next one begins
      have hparts : List.splitOnPPrepend (· == lineFeed) (b :: bytes) taken =
          taken.reverse :: List.splitOnPPrepend (· == lineFeed) bytes [] := by
        rw [List.splitOnPPrepend_cons_eq_if, if_pos (beq_iff_eq.mpr hfeed),
          List.splitOnPPrepend_nil_right]
      have hstep : (within taken).step b = (after (lineOf taken), [lineOf taken]) := by
        simp [step, within, hfeed]
      rw [hparts, linesOfParts_cons _ (List.splitOnPPrepend_ne_nil _ _ _), hstep,
        lineOf_eq_frame h, List.map_cons]
      cases frame taken.reverse with
      | error fault => exact congrArg _ (linesFrom_ended bytes)
      | ok line => exact congrArg _ (ih (Nat.zero_le _))
    · have hparts : List.splitOnPPrepend (· == lineFeed) (b :: bytes) taken =
          List.splitOnPPrepend (· == lineFeed) bytes (b :: taken) :=
        List.splitOnPPrepend_cons_neg (beq_eq_false_iff_ne.mpr hfeed)
      rw [hparts]
      by_cases hfull : taken.length = maxLength
      · -- one byte too many, whatever follows
        have hstep : (within taken).step b = ({ ended := true }, [.error .tooLong]) := by
          simp [step, within, hfeed, hfull]
        obtain ⟨more, parts, hsplit⟩ :=
          exists_cons_of_splitOnPPrepend (· == lineFeed) bytes (b :: taken)
        have hlong : maxLength < ((b :: taken).reverse ++ more).length := by
          rw [List.length_append, List.length_reverse, List.length_cons]
          omega
        have hone : 1 < ((b :: taken).reverse ++ more).length :=
          Nat.lt_of_le_of_lt (by decide) hlong
        rw [hstep, hsplit, linesOfParts_long parts hone, List.map_cons, frame_of_long hlong]
        exact congrArg _ (linesFrom_ended bytes)
      · have hstep : (within taken).step b = (within (b :: taken), []) := by
          simp [step, within, hfeed, hfull]
        have hroom : (b :: taken).length ≤ maxLength := by
          rw [List.length_cons]
          omega
        rw [hstep, ← ih hroom]
        rfl

/-- However a stream is cut, its lines are its parts between line feeds up to the first fault. -/
theorem lines_eq (pieces : List (List UInt8)) :
    lines pieces = upToFault ((rawLines pieces.flatten).map frame) := by
  have hnone : ([] : List UInt8).length ≤ maxLength := Nat.zero_le _
  have hwithin := linesFrom_within pieces.flatten hnone
  rw [List.splitOnPPrepend_nil_right] at hwithin
  calc lines pieces
    _ = linesFrom {} [pieces.flatten] := linesFrom_flatten {} pieces
    _ = upToFault ((rawLines pieces.flatten).map frame) := hwithin

theorem readable_lines (pieces : List (List UInt8)) :
    readable (lines pieces) = streamLines pieces.flatten := by
  rw [lines_eq, readable_upToFault, streamLines]

-- an empty line counts, a carriage return alone at the end does not
example : streamLines "first\r\n\nlast\n\r".toUTF8.toList = ["first", "", "last"] := by
  decide +kernel

end LineReader

end NodeRollout
