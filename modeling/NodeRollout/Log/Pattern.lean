import NodeRollout.Text.Alphanumeric
import NodeRollout.Text.Digits
/-!
Which texts are patterns for the value of a field. A directive with such a pattern decides no event of
this program, so patterns are told from other texts but never matched. A pattern stands in a directive
between an equals sign and a closing brace, so that it holds no comma, equals sign or closing brace;
an opening brace therefore never counts repetitions.
-/
namespace NodeRollout.Log.Pattern

/-- What an escape or a character stands for. -/
inductive Item where
  | literal (c : Char)
  | set
  | place
  deriving DecidableEq, Repr

/-- Reads a character by so many hexadecimal digits of its number. -/
def readHex? (digits : Nat) (text : List Char) : Option (Item × List Char) := do
  let values ← (text.take digits).mapM Text.hexDigit?
  let n := values.foldl (fun n d => 16 * n + d) 0
  if values.length = digits ∧ n.isValidChar then some (.literal (.ofNat n), text.drop digits) else none

/-- Reads an escape behind its backslash. The edges of words are no part of a pattern here. -/
def readEscape? : List Char → Option (Item × List Char)
  | [] => none
  | 'x' :: rest => readHex? 2 rest
  | 'u' :: rest => readHex? 4 rest
  | 'U' :: rest => readHex? 8 rest
  | c :: rest =>
    if c = 'p' ∨ c = 'P' then
      match rest with
      | category :: rest =>
        if "LMNPSZC".toList.contains category.toUpper then some (.set, rest) else none
      | [] => none
    else if "dDsSwW".toList.contains c then some (.set, rest)
    else if c = 'A' ∨ c = 'z' then some (.place, rest)
    else match [('a', '\x07'), ('f', '\x0c'), ('t', '\t'), ('n', '\n'), ('r', '\r'),
        ('v', '\x0b')].lookup c with
      | some literal => some (.literal literal, rest)
      | none =>
        if c.isAlphanum || 127 < c.toNat || c == '<' || c == '>' then none
        else some (.literal c, rest)

def readItem? : List Char → Option (Item × List Char)
  | [] => none
  | '\\' :: rest => (readEscape? rest).filter (·.1 != .place)
  | c :: rest => some (.literal c, rest)

/-- Reads one character, one set or one range of a class. A dash before a closing bracket or another
dash makes no range. -/
def readRange? (text : List Char) : Option (List Char) := do
  let (first, rest) ← readItem? text
  match rest with
  | '-' :: ']' :: _ | '-' :: '-' :: _ => return rest
  | '-' :: behind =>
    match first, ← readItem? behind with
    | .literal a, (.literal b, rest) => if a ≤ b then return rest else none
    | _, _ => none
  | _ => return rest

/-- The text of a class behind what may stand only at its beginning: a caret, and dashes or a closing
bracket that stand for themselves. -/
def skipClassHead (text : List Char) : List Char :=
  let text := if text.head? = some '^' then text.drop 1 else text
  match text with
  | ']' :: rest => rest
  | _ => text.dropWhile (· == '-')

def classNames : List String :=
  ["alnum", "alpha", "ascii", "blank", "cntrl", "digit", "graph", "lower", "print", "punct", "space",
    "upper", "word", "xdigit"]

/-- Reads a named class behind its bracket, such as `:alpha:]`. -/
def readNamed? : List Char → Option (List Char)
  | ':' :: text =>
    let text := if text.head? = some '^' then text.drop 1 else text
    let name := text.takeWhile (· != ':')
    match text.drop name.length with
    | ':' :: ']' :: rest => if classNames.contains (String.ofList name) then some rest else none
    | _ => none
  | _ => none

/-- Reads classes inside each other to the end of the outermost one, from behind the head of the
innermost. -/
def readClass? (fuel depth : Nat) (text : List Char) : Option (List Char) :=
  match fuel with
  | 0 => none
  | fuel + 1 =>
    match text with
    | [] => none
    | '[' :: rest =>
      match readNamed? rest with
      | some rest => readClass? fuel depth rest
      | none => readClass? fuel (depth + 1) (skipClassHead rest)
    | ']' :: rest => if depth = 0 then some rest else readClass? fuel (depth - 1) rest
    | '&' :: '&' :: rest | '-' :: '-' :: rest | '~' :: '~' :: rest => readClass? fuel depth rest
    | text => do readClass? fuel depth (← readRange? text)

/-- Reads the name of a group to the angle bracket behind it. -/
def readName? (text : List Char) : Option (List Char) :=
  let name := text.takeWhile (· != '>')
  let isRight : Bool := match name with
    | first :: more =>
      (first == '_' || (Text.isAlphanumeric first && !first.isDigit)) &&
        more.all fun c => Text.isAlphanumeric c || "_.[]".toList.contains c
    | [] => false
  match text.drop name.length with
  | '>' :: rest => if isRight then some rest else none
  | _ => none

/-- The letters between a question mark and the end of the flags: each once, and none missing behind
the dash. -/
def areFlags (flags : List Char) : Bool :=
  flags.all "imsUuRx-".toList.contains && flags.eraseDups == flags && flags.getLast? != some '-'

/-- Reads what stands behind an opening parenthesis before the group itself, and tells whether a group
is opened; flags on their own open none. -/
def readGroup? : List Char → Option (Bool × List Char)
  | '?' :: 'P' :: '<' :: rest | '?' :: '<' :: rest => (readName? rest).map (true, ·)
  | '?' :: rest =>
    let flags := rest.takeWhile fun c => c != ':' && c != ')'
    match rest.drop flags.length with
    | ':' :: rest => if areFlags flags then some (true, rest) else none
    | ')' :: rest => if areFlags flags && !flags.isEmpty then some (false, rest) else none
    | _ => none
  | rest => some (true, rest)

/-- Whether a text is the rest of a pattern inside so many groups; an operator may repeat only what
stands before it. -/
def isRest (fuel depth : Nat) (repeatable : Bool) (text : List Char) : Bool :=
  match fuel with
  | 0 => false
  | fuel + 1 =>
    match text with
    | [] => depth == 0
    | '(' :: rest =>
      match readGroup? rest with
      | some (opened, rest) => isRest fuel (if opened then depth + 1 else depth) false rest
      | none => false
    | ')' :: rest => depth != 0 && isRest fuel (depth - 1) true rest
    | '|' :: rest => isRest fuel depth false rest
    | '[' :: rest =>
      match readClass? rest.length 0 (skipClassHead rest) with
      | some rest => isRest fuel depth true rest
      | none => false
    | '\\' :: rest =>
      match readEscape? rest with
      | some (_, rest) => isRest fuel depth true rest
      | none => false
    | c :: rest =>
      if c = '*' ∨ c = '+' ∨ c = '?' then
        let rest := if rest.head? = some '?' then rest.drop 1 else rest
        repeatable && isRest fuel depth true rest
      else c != '{' && isRest fuel depth true rest

def isPattern (text : List Char) : Bool := isRest (text.length + 1) 0 false text

/-- Drops the digits at the beginning; there must be one. -/
def dropDigits? (text : List Char) : Option (List Char) :=
  if (text.head?.map Char.isDigit).getD false then some (text.dropWhile Char.isDigit) else none

/-- The text is a decimal number without a sign, with or without a fraction and an exponent. -/
def isDecimal (text : List Char) : Bool :=
  let mantissa : Option (List Char) := match text with
    | '.' :: rest => dropDigits? rest
    | _ => (dropDigits? text).map fun rest =>
      if rest.head? = some '.' then (rest.drop 1).dropWhile Char.isDigit else rest
  match mantissa with
  | some [] => true
  | some (e :: rest) =>
    let digits := if rest.head? = some '+' ∨ rest.head? = some '-' then rest.drop 1 else rest
    (e == 'e' || e == 'E') && dropDigits? digits == some []
  | none => false

/-- The text is a number with a plus sign, which is a value although no pattern begins with one. -/
def isPositive : List Char → Bool
  | '+' :: text =>
    isDecimal text ||
      ["inf", "infinity", "nan"].contains (String.ofList (text.map Char.toLower))
  | _ => false

/-- The text can be asked of a field: it is a truth value, a number or a pattern. Only the numbers with
a plus sign are not patterns too. -/
def isFieldValue (text : List Char) : Bool := isPositive text || isPattern text

end NodeRollout.Log.Pattern
