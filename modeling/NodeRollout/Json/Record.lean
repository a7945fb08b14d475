import NodeRollout.Json.Fault
/-!
Records with named scalar fields. A record decodes from an object with its fields in any order among
unknown ones, which are passed over, and from an array with its fields in their order. It decodes
from the words of a text, stopping at the first fault, or from a value that was read before.
-/
namespace NodeRollout.Json

/-- What a member of an object is to a record that has been filled in part. -/
inductive Slot (σ : Type) where
  | unknown
  | filled
  /-- The field is free; this is what its value makes of the record. -/
  | free (fill : Seen → Decoded σ)

/-- A field that holds `old`, to be filled by `put` with a value read by `read`. -/
def Slot.ofField {σ α : Type} (old : Option α) (read : Seen → Decoded α) (put : α → σ) : Slot σ :=
  match old with
  | some _ => .filled
  | none => .free fun seen => (read seen).map put

/-- A record type `α` whose fields are collected in a `σ`. -/
structure Record (σ α : Type) where
  title : String
  fields : List String
  blank : σ
  slot : σ → String → Slot σ
  ofObject : σ → Decoded α
  /-- The record at the end of an array of this many of its fields. -/
  ofArray : σ → Nat → Decoded α

namespace Record

variable {σ α : Type}

def fill (record : Record σ α) (draft : σ) (name : String) (seen : Seen) : Decoded σ :=
  match record.slot draft name with
  | .unknown => .ok draft
  | .filled => .error (.duplicateField name)
  | .free fill => fill seen

def readMembers (record : Record σ α) (draft : σ) (first : Bool) (tokens : List Token) :
    Decoded (σ × List Token) :=
  match _hk : nextKey first tokens with
  | .error fault => .error fault
  | .ok (none, rest) => .ok (draft, rest)
  | .ok (some name, rest) =>
    match record.slot draft name with
    | .filled => .error (.duplicateField name)
    | .unknown =>
      match _hs : skipMember rest with
      | .error fault => .error fault
      | .ok rest => record.readMembers draft false rest
    | .free fill =>
      match rest with
      | .colon :: token :: rest =>
        match token.seen >>= fill with
        | .error fault => .error fault
        | .ok draft => record.readMembers draft false rest
      | _ => .error .malformed
termination_by tokens.length
decreasing_by
  · have := length_of_nextKey _hk
    have := length_of_skipMember _hs
    omega
  · have := length_of_nextKey _hk
    simp only [List.length_cons] at this
    omega

/-- The elements of an array, one for each of these fields as long as there are some. -/
def readElements (record : Record σ α) (draft : σ) (count : Nat) :
    (fields : List String) → List Token → Decoded (α × List Token)
  | [], .closeArray :: rest => do return (← record.ofArray draft count, rest)
  | [], _ => do
    let _ ← record.ofArray draft count
    .error .malformed
  | name :: fields, tokens => do
    match ← nextElement (count == 0) tokens with
    | (false, rest) => return (← record.ofArray draft count, rest)
    | (true, token :: rest) =>
      let draft ← record.fill draft name (← token.seen)
      record.readElements draft (count + 1) fields rest
    | (true, []) => .error .malformed

def read (record : Record σ α) : List Token → Decoded (α × List Token)
  | .openObject :: rest => do
    let (draft, rest) ← record.readMembers record.blank true rest
    return (← record.ofObject draft, rest)
  | .openArray :: rest => record.readElements record.blank 0 record.fields rest
  | tokens => do .error (.wrongType (← seenFirst tokens) record.title)

def fillMembers (record : Record σ α) (draft : σ) : List (String × Value) → Decoded σ
  | [] => .ok draft
  | (name, value) :: rest => do
    record.fillMembers (← record.fill draft name (← value.seen)) rest

/-- Fills fields from elements that were read before; tells how many were left over. -/
def fillElements (record : Record σ α) (draft : σ) :
    (fields : List String) → List Value → Decoded (σ × Nat)
  | [], values => .ok (draft, values.length)
  | _, [] => .ok (draft, 0)
  | name :: fields, value :: values => do
    record.fillElements (← record.fill draft name (← value.seen)) fields values

def elements (n : Nat) : String :=
  if n = 1 then "1 element in sequence" else s!"{n} elements in sequence"

def ofValue (record : Record σ α) : Value → Decoded α
  | .object members => do record.ofObject (← record.fillMembers record.blank members)
  | .array values => do
    let (draft, left) ← record.fillElements record.blank record.fields values
    let result ← record.ofArray draft values.length
    if left = 0 then return result
    else .error (.wrongLength values.length (elements record.fields.length))
  | value => do .error (.wrongType (← value.seen) record.title)

def required {β : Type} (name : String) : Option β → Decoded β
  | some b => .ok b
  | none => .error (.missingField name)

end Record

end NodeRollout.Json
