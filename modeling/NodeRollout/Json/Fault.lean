import NodeRollout.Json.Value
import NodeRollout.Text.Quoted
/-!
Why a text does not decode. Decoding goes from left to right, and the first fault is the one that is
reported: a text that stops being JSON behind a value of the wrong type has the wrong type.
-/
namespace NodeRollout.Json

/-- What a decoder sees of a value at first: of a container only which kind it is. -/
inductive Seen where
  | null
  | bool (b : Bool)
  | number (n : Number)
  | string (s : String)
  | sequence
  | map
  deriving DecidableEq, Inhabited, Repr

def Seen.text : Seen → String
  | .null => "null"
  | .bool true => "boolean `true`"
  | .bool false => "boolean `false`"
  | .number (.real bits) => s!"floating point `{Number.text (.real bits)}`"
  | .number n => s!"integer `{n.text}`"
  | .string s => s!"string {Text.quoted s}"
  | .sequence => "sequence"
  | .map => "map"

/-- The first fault of a text. -/
inductive Fault where
  | malformed
  | wrongType (seen : Seen) (expected : String)
  | outOfRange (n : Nat) (expected : String)
  | missingField (name : String)
  | duplicateField (name : String)
  | wrongLength (length : Nat) (expected : String)
  | unknownVariant (name expected : String)
  deriving DecidableEq, Inhabited, Repr

def Fault.message : Fault → String
  | .malformed => "<malformed json>"
  | .wrongType seen expected => s!"invalid type: {seen.text}, expected {expected}"
  | .outOfRange n expected => s!"invalid value: integer `{n}`, expected {expected}"
  | .missingField name => s!"missing field `{name}`"
  | .duplicateField name => s!"duplicate field `{name}`"
  | .wrongLength length expected => s!"invalid length {length}, expected {expected}"
  | .unknownVariant name expected => s!"unknown variant `{name}`, expected {expected}"

abbrev Decoded (α : Type) := Except Fault α

def Token.seen : Token → Decoded Seen
  | .null => .ok .null
  | .bool b => .ok (.bool b)
  | .number (some n) => .ok (.number n)
  | .string (some s) => .ok (.string s)
  | .openArray => .ok .sequence
  | .openObject => .ok .map
  | _ => .error .malformed

def seenFirst : List Token → Decoded Seen
  | token :: _ => token.seen
  | [] => .error .malformed

def Value.seen : Value → Decoded Seen
  | .null => .ok .null
  | .bool b => .ok (.bool b)
  | .number n => .ok (.number n)
  | .string s => .ok (.string s)
  | .array _ => .ok .sequence
  | .object _ => .ok .map
  | .unreadable => .error .malformed

namespace Seen

def asString : Seen → Decoded String
  | .string s => .ok s
  | seen => .error (.wrongType seen "a string")

def asBool : Seen → Decoded Bool
  | .bool b => .ok b
  | seen => .error (.wrongType seen "a boolean")

/-- An integer of 64 bits with sign; a number with a fraction or an exponent is none. -/
def asInt64 : Seen → Decoded Int64
  | .number (.natural n) =>
    if n < 1 <<< 63 then .ok (Int64.ofInt n) else .error (.outOfRange n "i64")
  | .number (.negative n) => .ok (Int64.ofInt (-n))
  | seen => .error (.wrongType seen "i64")

def asVariant : Seen → Decoded String
  | .string s => .ok s
  | seen => .error (.wrongType seen "variant identifier")

end Seen

/-- The rest of the words behind one that has to stand here. -/
def expect (token : Token) : List Token → Decoded (List Token)
  | t :: rest => if t = token then .ok rest else .error .malformed
  | [] => .error .malformed

def skipMember (tokens : List Token) : Decoded (List Token) :=
  match tokens with
  | .colon :: rest =>
    match skip rest with
    | some rest => .ok rest
    | none => .error .malformed
  | _ => .error .malformed

theorem length_of_skipMember {tokens rest : List Token} (h : skipMember tokens = .ok rest) :
    rest.length < tokens.length := by
  unfold skipMember at h
  split at h
  · split at h
    · rename_i hs
      have := length_of_skip hs
      rw [Except.ok.injEq] at h
      rw [List.length_cons, ← h]
      omega
    · simp at h
  · simp at h

/-- The name of the next member of an object, or `none` at its end; `first` where no member went
before. -/
def nextKey (first : Bool) (tokens : List Token) : Decoded (Option String × List Token) :=
  match tokens with
  | .closeObject :: rest => .ok (none, rest)
  | .string (some name) :: rest => if first then .ok (some name, rest) else .error .malformed
  | .comma :: .string (some name) :: rest =>
    if first then .error .malformed else .ok (some name, rest)
  | _ => .error .malformed

theorem length_of_nextKey {first : Bool} {tokens rest : List Token} {name : Option String}
    (h : nextKey first tokens = .ok (name, rest)) : rest.length < tokens.length := by
  unfold nextKey at h
  split at h
  all_goals grind

/-- What follows the separator before the next element of an array, or its end; `first` where no
element went before. -/
def nextElement (first : Bool) (tokens : List Token) : Decoded (Bool × List Token) :=
  match tokens with
  | .closeArray :: rest => .ok (false, rest)
  | .comma :: .closeArray :: _ => .error .malformed
  | .comma :: rest => if first then .error .malformed else .ok (true, rest)
  | tokens => if first then .ok (true, tokens) else .error .malformed

theorem length_of_nextElement {first more : Bool} {tokens rest : List Token}
    (h : nextElement first tokens = .ok (more, rest)) : rest.length ≤ tokens.length := by
  unfold nextElement at h
  split at h
  all_goals grind

/-- A decoder applied to a whole text, with nothing behind the value. -/
def decodeWhole {α : Type} (read : List Token → Decoded (α × List Token)) (text : String) :
    Decoded α :=
  match read (Token.lex text.toList) with
  | .error fault => .error fault
  | .ok (value, []) => .ok value
  | .ok (_, _ :: _) => .error .malformed

end NodeRollout.Json
