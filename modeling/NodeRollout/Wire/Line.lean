import NodeRollout.Text.Utf8
/-!
Lines of a byte stream. A line ends at a line feed, and one carriage return before it is dropped; at
the end of the stream a rest is a line too, unless it is empty or a carriage return alone. A line that
grows too long, or is no UTF-8, ends the reading.

The reader takes one byte at a time, so the lines do not depend on how the stream is cut.
-/
namespace NodeRollout

/-- Why no line can be read. -/
inductive LineFault where
  | tooLong
  | notText
  deriving DecidableEq, Inhabited, Repr

def LineFault.message : LineFault → String
  | .tooLong => "max line length exceeded"
  | .notText => "Unable to decode input as UTF8"

/-- A line, or the fault that ends the reading. -/
abbrev Framed := Except LineFault String

/-- A reader of lines: the bytes of the line so far in reverse, and their number. -/
structure LineReader where
  taken : List UInt8 := []
  length : Nat := 0
  /-- A fault was met; nothing is read any more. -/
  ended : Bool := false
  deriving DecidableEq, Inhabited

namespace LineReader

/-- The most bytes of a line before its line feed. -/
def maxLength : Nat := 65536

def lineFeed : UInt8 := 10

def carriageReturn : UInt8 := 13

/-- The line with these bytes in reverse, without one carriage return at its end. -/
def lineOf (taken : List UInt8) : Framed :=
  let bytes := match taken with
    | b :: rest => if b = carriageReturn then rest.reverse else taken.reverse
    | [] => []
  match Text.ofBytes? bytes with
  | some line => .ok line
  | none => .error .notText

def after (line : Framed) : LineReader :=
  match line with
  | .ok _ => {}
  | .error _ => { ended := true }

/-- Takes one byte; it may complete a line, or one byte too many be a fault. -/
def step (reader : LineReader) (b : UInt8) : LineReader × List Framed :=
  if reader.ended then (reader, [])
  else if b = lineFeed then (after (lineOf reader.taken), [lineOf reader.taken])
  else if reader.length = maxLength then ({ ended := true }, [.error .tooLong])
  else ({ reader with taken := b :: reader.taken, length := reader.length + 1 }, [])

def feed (reader : LineReader) : List UInt8 → LineReader × List Framed
  | [] => (reader, [])
  | b :: rest =>
    let (next, lines) := reader.step b
    let (last, more) := next.feed rest
    (last, lines ++ more)

def finish (reader : LineReader) : List Framed :=
  if reader.ended ∨ reader.taken = [] ∨ reader.taken = [carriageReturn] then []
  else [lineOf reader.taken]

def linesFrom (reader : LineReader) : List (List UInt8) → List Framed
  | [] => reader.finish
  | piece :: rest =>
    let (next, lines) := reader.feed piece
    lines ++ next.linesFrom rest

/-- The lines of a stream up to the first fault, which is the last element where there is one. -/
def lines (pieces : List (List UInt8)) : List Framed := linesFrom {} pieces

end LineReader

def lineBytes (line : String) : List UInt8 :=
  line.toUTF8.toList ++ [LineReader.lineFeed]

end NodeRollout
