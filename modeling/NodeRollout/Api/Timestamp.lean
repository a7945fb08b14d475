import NodeRollout.Json.Number
/-!
Time stamps of API objects: a date, a time of day, and an offset from universal time, with
annotations in brackets behind them. The parts are separated throughout or not at all, and the time
may end behind any of its parts. A stamp has to name a real day and an instant in the range of the
clock; annotations are checked for their form only.
-/
namespace NodeRollout.Api.Timestamp

/-- A number of exactly `count` digits between two bounds. -/
def number? (count low high : Nat) (cs : List Char) : Option (Nat × List Char) :=
  let ds := cs.take count
  let n := Json.Numeral.value ds
  if ds.length = count ∧ ds.all Char.isDigit ∧ low ≤ n ∧ n ≤ high then some (n, cs.drop count)
  else none

/-- A year of four digits, or of six behind a sign. The year zero has no negative form. -/
def year? : List Char → Option (Int × List Char)
  | '+' :: cs => (number? 6 0 9999 cs).map fun (n, rest) => (n, rest)
  | '-' :: cs => (number? 6 1 9999 cs).map fun (n, rest) => (-n, rest)
  | cs => (number? 4 0 9999 cs).map fun (n, rest) => (n, rest)

def isLeapYear (year : Int) : Bool := year % 4 == 0 && (year % 100 != 0 || year % 400 == 0)

def daysInMonth (year : Int) (month : Nat) : Nat :=
  if month = 2 then if isLeapYear year then 29 else 28
  else if [4, 6, 9, 11].contains month then 30
  else 31

/-- The number of a day, counted from the first of January 1970. Years begin in March here, so that
a leap day is the last one of its year. -/
def dayNumber (year : Int) (month day : Nat) : Int :=
  let y := if month ≤ 2 then year - 1 else year
  let dayOfYear := (153 * ((month + 9) % 12) + 2) / 5 + day - 1
  365 * y + y / 4 - y / 100 + y / 400 + dayOfYear - 719468

/-- What follows a dash, where the parts of a date are separated. -/
def dash? (separated : Bool) (cs : List Char) : Option (List Char) :=
  match separated, cs with
  | true, '-' :: rest => some rest
  | true, _ | false, '-' :: _ => none
  | false, cs => some cs

def date? (cs : List Char) : Option (Int × List Char) := do
  let (year, cs) ← year? cs
  let separated := cs.head? == some '-'
  let (month, cs) ← number? 2 1 12 (← dash? separated cs)
  let (day, cs) ← number? 2 1 (daysInMonth year month) (← dash? separated cs)
  return (dayNumber year month day, cs)

/-- Hours, minutes, seconds, and the digits of a fraction of the second. -/
structure Clock where
  hours : Nat
  minutes : Nat := 0
  seconds : Nat := 0
  fraction : List Char := []

def Clock.total (clock : Clock) : Nat := 3600 * clock.hours + 60 * clock.minutes + clock.seconds

/-- The next part of a clock, if there is one: behind a colon where the parts are separated, otherwise
at once. -/
def nextPart? (separated : Bool) (cs : List Char) : Option (List Char) :=
  match separated, cs with
  | true, ':' :: rest => some rest
  | false, a :: b :: _ => if a.isDigit && b.isDigit then some cs else none
  | _, _ => none

/-- The digits of a fraction behind a point or a comma, at least one and at most nine. -/
def fraction? : List Char → Option (List Char × List Char)
  | c :: cs =>
    if c == '.' || c == ',' then
      let ds := (cs.take 9).takeWhile Char.isDigit
      if ds.isEmpty then none else some (ds, cs.drop ds.length)
    else some ([], c :: cs)
  | [] => some ([], [])

/-- A clock of up to the given hours and seconds; seconds are read only if they are allowed. -/
def clock? (maxHours : Nat) (maxSeconds : Option Nat) (cs : List Char) :
    Option (Clock × List Char) := do
  let (hours, cs) ← number? 2 0 maxHours cs
  let separated := cs.head? == some ':'
  match nextPart? separated cs with
  | none => return ({ hours }, cs)
  | some cs =>
    let (minutes, cs) ← number? 2 0 59 cs
    match maxSeconds, nextPart? separated cs with
    | some maxSeconds, some cs =>
      let (seconds, cs) ← number? 2 0 maxSeconds cs
      let (fraction, cs) ← fraction? cs
      return ({ hours, minutes, seconds, fraction }, cs)
    | _, _ => return ({ hours, minutes }, cs)

def maxOffsetHours : Nat := 25

/-- The seconds of an offset, its fraction rounded; they stay below one hour more than the most. -/
def offsetSeconds? (clock : Clock) : Option Nat :=
  let seconds := clock.total + if clock.fraction.head?.any ('5' ≤ ·) then 1 else 0
  if seconds < 3600 * (maxOffsetHours + 1) then some seconds else none

/-- An offset from universal time in seconds: none at all behind a `Z`, else behind a sign. -/
def offset? : List Char → Option (Int × List Char)
  | 'Z' :: cs | 'z' :: cs => some (0, cs)
  | '+' :: cs => do
    let (clock, cs) ← clock? maxOffsetHours (some 59) cs
    return ((← offsetSeconds? clock : Nat), cs)
  | '-' :: cs => do
    let (clock, cs) ← clock? maxOffsetHours (some 59) cs
    return (-(← offsetSeconds? clock : Nat), cs)
  | _ => none

/-- A word that starts with one class of characters and goes on with another. -/
def isWord (start next : Char → Bool) : List Char → Bool
  | c :: cs => start c && cs.all next
  | [] => false

def isZoneStart (c : Char) : Bool := c.isAlpha || c == '_' || c == '.'

def isZoneNext (c : Char) : Bool := isZoneStart c || c.isDigit || c == '+' || c == '-'

def isKeyStart (c : Char) : Bool := c.isLower || c == '_'

def isKeyNext (c : Char) : Bool := isKeyStart c || c.isDigit || c == '-'

/-- A time zone by its name, whose parts stand between slashes, or by an offset without seconds. -/
def isZone : List Char → Bool
  | c :: cs =>
    if c == '+' || c == '-' then
      match clock? maxOffsetHours none cs with
      | some (_, []) => true
      | _ => false
    else ((c :: cs).splitOn '/').all (isWord isZoneStart isZoneNext)
  | [] => false

/-- A key and its value, whose parts stand between dashes. -/
def isTag (cs : List Char) : Bool :=
  let key := cs.takeWhile (· != '=')
  match cs.drop key.length with
  | _ :: value =>
    isWord isKeyStart isKeyNext key
      && (value.splitOn '-').all (isWord Char.isAlphanum Char.isAlphanum)
  | [] => false

/-- The text of an annotation between its brackets; a time zone can only be the first. One that is marked
by an exclamation mark must be understood, and only time zones are. -/
def isAnnotation (first : Bool) : List Char → Bool
  | '!' :: body => first && isZone body
  | body => isTag body || (first && isZone body)

/-- Annotations up to the end of the text; `body` holds what was read of one that is open, the last
character first. -/
def areAnnotations (first : Bool) (body : Option (List Char)) (cs : List Char) : Bool :=
  match body, cs with
  | none, [] => true
  | none, '[' :: rest => areAnnotations first (some []) rest
  | none, _ :: _ => false
  | some _, [] => false
  | some body, c :: rest =>
    if c = ']' then isAnnotation first body.reverse && areAnnotations false none rest
    else areAnnotations first (some (c :: body)) rest

/-- The first and the last second of the clock, counted from 1970. They leave room for every offset
within the years from -9999 to 9999. -/
def range : Int × Int := (-377705023201, 253402207200)

def isValid (text : String) : Bool :=
  (do
    let (day, cs) ← date? text.toList
    let cs ← match cs with
      | ' ' :: cs | 'T' :: cs | 't' :: cs => some cs
      | _ => none
    let (clock, cs) ← clock? 23 (some 60) cs
    let (offset, cs) ← offset? cs
    let second := 86400 * day + (clock.total - if clock.seconds = 60 then 1 else 0 : Nat) - offset
    return range.1 ≤ second && second ≤ range.2 && areAnnotations true none cs).getD false

end NodeRollout.Api.Timestamp
