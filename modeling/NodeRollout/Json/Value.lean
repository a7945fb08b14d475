import NodeRollout.Json.Token
/-!
Whole JSON values. An object keeps its members in the order of the text, repeated names included, so
that a decoder can report a repetition.

`skip` passes over a value without reading it, however deep it is nested. `readValue` builds it, with
`unreadable` for every part that is well formed and has no value; `read` refuses such a part, and a
value that opens more than a given number of arrays and objects inside each other.
-/
namespace NodeRollout.Json

/-- A JSON value. -/
inductive Value where
  | null
  | bool (b : Bool)
  | number (n : Number)
  | string (s : String)
  | array (items : List Value)
  | object (members : List (String × Value))
  /-- A string with half a surrogate pair, a number that is too large, or an object with a name of the
  former kind. -/
  | unreadable
  deriving Inhabited

/-- The object of these members, unless one of the names has no value. -/
def Value.ofMembers (members : List (Option String × Value)) : Value :=
  match members.mapM fun (name, value) => name.map (·, value) with
  | some members => .object members
  | none => .unreadable

/-- A container that is being passed over. -/
inductive Enclosing where
  | array
  | object
  deriving DecidableEq

mutual

/-- Passes over a value and over what is open around it. -/
def skipValue (stack : List Enclosing) : List Token → Option (List Token)
  | .null :: rest | .bool _ :: rest | .number _ :: rest | .string _ :: rest => skipRest stack rest
  | .openArray :: .closeArray :: rest => skipRest stack rest
  | .openArray :: rest => skipValue (.array :: stack) rest
  | .openObject :: .closeObject :: rest => skipRest stack rest
  | .openObject :: .string _ :: .colon :: rest => skipValue (.object :: stack) rest
  | _ => none

def skipRest (stack : List Enclosing) (tokens : List Token) : Option (List Token) :=
  match stack, tokens with
  | [], tokens => some tokens
  | .array :: stack, .comma :: rest => skipValue (.array :: stack) rest
  | .array :: stack, .closeArray :: rest => skipRest stack rest
  | .object :: stack, .comma :: .string _ :: .colon :: rest => skipValue (.object :: stack) rest
  | .object :: stack, .closeObject :: rest => skipRest stack rest
  | _, _ => none

end

theorem length_of_skipValue_skipRest :
    (∀ stack tokens rest, skipValue stack tokens = some rest → rest.length < tokens.length) ∧
      (∀ stack tokens rest, skipRest stack tokens = some rest → rest.length ≤ tokens.length) := by
  apply skipValue.mutual_induct
    (fun stack tokens =>
      ∀ rest, skipValue stack tokens = some rest → rest.length < tokens.length)
    (fun stack tokens =>
      ∀ rest, skipRest stack tokens = some rest → rest.length ≤ tokens.length)
  all_goals intros
  all_goals simp_all [skipValue, skipRest]
  all_goals grind

/-- What follows the value at the start, if there is one. -/
def skip (tokens : List Token) : Option (List Token) := skipValue [] tokens

theorem length_of_skip {tokens rest : List Token} (h : skip tokens = some rest) :
    rest.length < tokens.length := length_of_skipValue_skipRest.1 [] tokens rest h

/-- A container that is being built, its parts so far in reverse. -/
inductive Partial where
  | items (done : List Value)
  /-- The next value belongs to `name`. -/
  | members (done : List (Option String × Value)) (name : Option String)

mutual

/-- Builds a value and what is open around it. -/
def readValue (stack : List Partial) : List Token → Option (Value × List Token)
  | .null :: rest => readRest stack .null rest
  | .bool b :: rest => readRest stack (.bool b) rest
  | .number n :: rest => readRest stack (n.elim .unreadable .number) rest
  | .string s :: rest => readRest stack (s.elim .unreadable .string) rest
  | .openArray :: .closeArray :: rest => readRest stack (.array []) rest
  | .openArray :: rest => readValue (.items [] :: stack) rest
  | .openObject :: .closeObject :: rest => readRest stack (.object []) rest
  | .openObject :: .string name :: .colon :: rest => readValue (.members [] name :: stack) rest
  | _ => none

/-- Puts a value into what is open around it, and goes on there. -/
def readRest (stack : List Partial) (value : Value) (tokens : List Token) :
    Option (Value × List Token) :=
  match stack, tokens with
  | [], tokens => some (value, tokens)
  | .items done :: stack, .comma :: rest => readValue (.items (value :: done) :: stack) rest
  | .items done :: stack, .closeArray :: rest =>
    readRest stack (.array (value :: done).reverse) rest
  | .members done name :: stack, .comma :: .string next :: .colon :: rest =>
    readValue (.members ((name, value) :: done) next :: stack) rest
  | .members done name :: stack, .closeObject :: rest =>
    readRest stack (.ofMembers ((name, value) :: done).reverse) rest
  | _, _ => none

end

theorem length_of_readValue_readRest :
    (∀ stack tokens value rest, readValue stack tokens = some (value, rest) →
      rest.length < tokens.length) ∧
      (∀ stack value tokens result rest, readRest stack value tokens = some (result, rest) →
        rest.length ≤ tokens.length) := by
  apply readValue.mutual_induct
    (fun stack tokens => ∀ value rest, readValue stack tokens = some (value, rest) →
      rest.length < tokens.length)
    (fun stack value tokens => ∀ result rest,
      readRest stack value tokens = some (result, rest) → rest.length ≤ tokens.length)
  all_goals intros
  all_goals simp_all [readValue, readRest, -List.reverse_cons]
  all_goals grind

namespace Value

mutual

/-- Whether every part is readable, and at most `room` containers are open inside each other. -/
def fits (room : Nat) : Value → Bool
  | .array items => 0 < room && allFit (room - 1) items
  | .object members => 0 < room && membersFit (room - 1) members
  | .unreadable => false
  | _ => true

def allFit (room : Nat) : List Value → Bool
  | [] => true
  | value :: rest => value.fits room && allFit room rest

def membersFit (room : Nat) : List (String × Value) → Bool
  | [] => true
  | (_, value) :: rest => value.fits room && membersFit room rest

end

/-- The value at the start and what follows it; it has to be readable, with at most `limit` containers
inside each other. -/
def read (limit : Nat) (tokens : List Token) : Option (Value × List Token) :=
  (readValue [] tokens).filter fun (value, _) => value.fits limit

theorem length_of_read {limit : Nat} {tokens rest : List Token} {value : Value}
    (h : read limit tokens = some (value, rest)) : rest.length < tokens.length :=
  length_of_readValue_readRest.1 [] tokens value rest (Option.filter_eq_some_iff.mp h).1

/-- The value of a text that holds one, in which parts may be unreadable. -/
def ofText? (text : String) : Option Value :=
  match readValue [] (Token.lex text.toList) with
  | some (value, []) => some value
  | _ => none

def string? : Value → Option String
  | .string s => some s
  | _ => none

def natural? : Value → Option Nat
  | .number (.natural n) => some n
  | _ => none

/-- The integer of a number without fraction and exponent. -/
def integer? : Value → Option Int
  | .number (.natural n) => some n
  | .number (.negative n) => some (-n)
  | _ => none

def isTrue : Value → Bool
  | .bool b => b
  | _ => false

/-- The elements of an array; other values have none. -/
def items : Value → List Value
  | .array items => items
  | _ => []

/-- The members of an object in the order of the text; other values have none. -/
def members : Value → List (String × Value)
  | .object members => members
  | _ => []

/-- The member of this name; of several the last. -/
def get? (value : Value) (name : String) : Option Value :=
  value.members.reverse.lookup name

end Value

end NodeRollout.Json
