import NodeRollout.Json.Value
/-!
Compact JSON text. Of the characters above the controls only the quote and the backslash are
escaped, so a written text holds no control character.
-/
namespace NodeRollout.Json

def hexDigit (n : Nat) : Char := Nat.digitChar n

def escape (c : Char) : List Char :=
  match c with
  | '"' => ['\\', '"']
  | '\\' => ['\\', '\\']
  | '\x08' => ['\\', 'b']
  | '\x0c' => ['\\', 'f']
  | '\n' => ['\\', 'n']
  | '\r' => ['\\', 'r']
  | '\t' => ['\\', 't']
  | c =>
    if c.toNat < 0x20 then
      ['\\', 'u', '0', '0', hexDigit (c.toNat / 16), hexDigit (c.toNat % 16)]
    else [c]

def writeString (s : String) : List Char := '"' :: s.toList.flatMap escape ++ ['"']

def writeBool (b : Bool) : List Char := if b then ['t', 'r', 'u', 'e'] else ['f', 'a', 'l', 's', 'e']

def writeInt (n : Int) : List Char := (toString n).toList

def writeMember (name : String) (value : List Char) : List Char := writeString name ++ ':' :: value

def writeObject (members : List (List Char)) : List Char :=
  '{' :: List.intercalate [','] members ++ ['}']

mutual

/-- The text of a value; what is unreadable is written as null. -/
def Value.write : Value → List Char
  | .null | .unreadable => ['n', 'u', 'l', 'l']
  | .bool b => writeBool b
  | .number n => n.text.toList
  | .string s => writeString s
  | .array items => '[' :: List.intercalate [','] (writeItems items) ++ [']']
  | .object members => writeObject (writeMembers members)

def writeItems : List Value → List (List Char)
  | [] => []
  | value :: rest => value.write :: writeItems rest

def writeMembers : List (String × Value) → List (List Char)
  | [] => []
  | (name, value) :: rest => writeMember name value.write :: writeMembers rest

end

def Value.text (value : Value) : String := String.ofList value.write

end NodeRollout.Json
