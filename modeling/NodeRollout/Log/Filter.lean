import NodeRollout.Log.Pattern
import NodeRollout.Text.Blank
import NodeRollout.Text.Slice
/-!
Which log events are written. A filter is a list of directives; each sets the least severe level that
is written for the events of a target, and the most specific directive for an event decides.
-/
namespace NodeRollout.Log

/-- The severity of an event. -/
inductive Level where
  | error
  | warn
  | info
  | debug
  | trace
  deriving DecidableEq, Inhabited, Repr

namespace Level

/-- How far down a level is; a filter at a level writes all that are not further down. -/
def rank : Level → Nat
  | .error => 1
  | .warn => 2
  | .info => 3
  | .debug => 4
  | .trace => 5

def name : Level → String
  | .error => "ERROR"
  | .warn => "WARN"
  | .info => "INFO"
  | .debug => "DEBUG"
  | .trace => "TRACE"

def all : List Level := [.error, .warn, .info, .debug, .trace]

end Level

/-- The limit of a directive; without a level nothing is written. -/
abbrev Limit := Option Level

def limitOfNumber? (n : Nat) : Option Limit :=
  if n = 0 then some none else (Level.all.find? (·.rank == n)).map some

/-- Reads a limit: the name of a level in either case, `off`, or the number of a level. -/
def limitOfText? (text : List Char) : Option Limit :=
  match Text.readUnsigned text with
  | some n => limitOfNumber? n
  | none =>
    let upper := String.ofList (text.map Char.toUpper)
    if upper = "OFF" then some none else (Level.all.find? (·.name == upper)).map some

/-- What a directive asks of a field: that it is there, or also that it has some value. -/
structure FieldTest where
  name : String
  hasValue : Bool
  deriving DecidableEq, Repr

/-- Reads the test of a field: its name, and behind an equals sign a value; what stands behind a
second equals sign is dropped. -/
def FieldTest.ofText? (text : List Char) : Option FieldTest :=
  let name := text.takeWhile (· != '=')
  match text.drop name.length with
  | _ :: rest =>
    if Pattern.isFieldValue (rest.takeWhile (· != '=')) then some ⟨String.ofList name, true⟩ else none
  | [] => if name.isEmpty then none else some ⟨String.ofList name, false⟩

/-- A rule for the events whose target begins with `target` and which have the field. A rule for a
span, or for the value of a field, decides nothing here, since no event of the program is in a span. -/
structure Directive where
  target : Option (List Char) := none
  span : Option (List Char) := none
  field : Option FieldTest := none
  limit : Limit := some .trace
  deriving DecidableEq, Inhabited, Repr

namespace Directive

/-- What is wrong with the text of a directive. -/
inductive Flaw where
  | wrong
  | torn
  deriving DecidableEq, Repr

/-- A directive can begin with this character, unless it begins with a span. -/
def canStart (c : Char) : Bool := Text.isAlphanumeric c || c == '-' || c == ':' || c == '_'

def whole {α : Type} (part : Option α) : Except Flaw α := part.elim (.error .torn) .ok

def right {α : Type} (part : Option α) : Except Flaw α := part.elim (.error .wrong) .ok

/-- The limit that a text writes from a position on; everything is written if there is none. -/
def readLimit (text : List Char) (start : Nat) : Except Flaw Limit := do
  let level ← whole (Text.fromByte? start text)
  if level.isEmpty then return some .trace else right (limitOfText? level)

/-- Reads what stands behind a span: nothing, or an equals sign and the limit. -/
def readBehindSpan (text : List Char) (partly : Directive) (start : Nat) (rest : List Char) :
    Except Flaw Directive :=
  match rest with
  | [] => return partly
  | '=' :: _ => return { partly with limit := ← readLimit text (start + 1) }
  | _ => .error .wrong

/-- Reads a span behind its opening bracket: its name, and in braces the test of a field. Either may be
missing, but only a name may be empty. -/
def readSpan (text : List Char) (target : Option (List Char)) (start : Nat) (rest : List Char) :
    Except Flaw Directive := do
  let name := rest.takeWhile fun c => c != ']' && c != '\x7b'
  let stop := start + Text.byteLength name
  match rest.drop name.length with
  | ']' :: rest =>
    let span ← whole (Text.betweenBytes? start stop text)
    readBehindSpan text { target, span := some span } (stop + 1) rest
  | _ :: rest =>
    let span ← whole (Text.betweenBytes? start stop text)
    let test := rest.takeWhile (· != '\x7d')
    let testStop := stop + 1 + Text.byteLength test
    match rest.drop test.length with
    | _ :: rest =>
      let field ← right (FieldTest.ofText? (← whole (Text.betweenBytes? (stop + 1) testStop text)))
      match rest with
      | ']' :: rest =>
        let span := if span.isEmpty then none else some span
        readBehindSpan text { target, span, field := some field } (testStop + 2) rest
      | _ => .error .wrong
    | [] => .error .wrong
  | [] => .error .wrong

/-- A directive of one word: a limit for everything, or a target of which everything is written. -/
def ofWord (text : List Char) : Directive :=
  match limitOfText? text with
  | some limit => { limit }
  | none => { target := some text }

/-- Reads a directive: one word, or a target, a span in brackets or both, and a limit behind an equals
sign. Its form is that of the text without the blanks around it, while its parts are taken from the
text with them, at the same byte positions; so a directive with blanks before it is off by their
length, and one in which a part is torn cannot be read at all. -/
def ofText (text : List Char) : Except Flaw Directive := do
  let form := Text.stripEnds Text.isBlank text
  match form with
  | [] => .error .wrong
  | '[' :: rest => readSpan text none 1 rest
  | first :: _ =>
    if !canStart first then .error .wrong
    else
      let name := form.takeWhile fun c => c != '=' && c != '['
      let stop := Text.byteLength name
      match form.drop name.length with
      | [] => return ofWord text
      | c :: rest =>
        let target := some (← whole (Text.betweenBytes? 0 stop text))
        if c = '=' then return { target, limit := ← readLimit text (stop + 1) }
        else readSpan text target (stop + 1) rest

/-- The directive is for events of this target with these fields. -/
def covers (d : Directive) (target : String) (fields : List String) : Bool :=
  d.span.isNone && d.target.all (·.isPrefixOf target.toList)
    && d.field.all fun test => !test.hasValue && fields.contains test.name

/-- How much of a target a directive names; one without a target names less than any other. -/
def reach (d : Directive) : Nat := d.target.elim 0 (·.length + 1)

/-- The first of two directives for an event is less specific: it names less of the target, or as much
and no field while the other names one. Of two with a field the one with the greater name counts. -/
def isWeaker (a b : Directive) : Bool :=
  a.reach < b.reach || (a.reach == b.reach &&
    match a.field, b.field with
    | none, some _ => true
    | some x, some y => x.name < y.name
    | _, none => false)

end Directive

abbrev Filter := List Directive

namespace Filter

/-- The texts of the directives, which are separated by commas. -/
def pieces (text : String) : List (List Char) :=
  ((text.splitOn ",").map String.toList).filter fun piece => !piece.isEmpty

/-- A filter without a directive writes errors only. -/
def orErrors (directives : List Directive) : Filter :=
  if directives.isEmpty then [{ limit := some .error }] else directives

def ofText (text : String) : Except Directive.Flaw Filter :=
  ((pieces text).mapM Directive.ofText).map orErrors

/-- The directives among texts, and the texts that are none; a torn one spoils them all. -/
def sortOut : List (List Char) → Option (List Directive × List String)
  | [] => some ([], [])
  | piece :: rest =>
    match Directive.ofText piece with
    | .ok d => (sortOut rest).map fun (directives, others) => (d :: directives, others)
    | .error .wrong =>
      (sortOut rest).map fun (directives, others) => (directives, String.ofList piece :: others)
    | .error .torn => none

/-- Reads a filter without the directives that are wrong, which are given beside it. -/
def ofTextLossy (text : String) : Option (Filter × List String) :=
  (sortOut (pieces text)).map fun (directives, others) => (orErrors directives, others)

/-- The filter of a run and the wrong directives that are left out of it: a right one from the
environment, else the configured one. There is none if a directive is torn. -/
def choose (environment : Option String) (configured : String) : Option (Filter × List String) :=
  match environment.map ofText with
  | some (.ok filter) => some (filter, [])
  | some (.error .torn) => none
  | _ => ofTextLossy configured

/-- The more specific of two directives for an event, of equals the later. -/
def stronger (best : Option Directive) (next : Directive) : Option Directive :=
  match best with
  | some b => if next.isWeaker b then some b else some next
  | none => some next

/-- The directive that decides the events of a target with these fields. -/
def decides? (filter : Filter) (target : String) (fields : List String) : Option Directive :=
  (filter.filter (·.covers target fields)).foldl stronger none

def allows (filter : Filter) (target : String) (fields : List String) (level : Level) : Bool :=
  match (filter.decides? target fields).bind (·.limit) with
  | some limit => level.rank ≤ limit.rank
  | none => false

end Filter

end NodeRollout.Log
