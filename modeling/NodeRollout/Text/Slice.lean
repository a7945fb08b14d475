/-!
Parts of a text between byte positions. No text begins or ends inside a character.
-/
namespace NodeRollout.Text

def byteLength : List Char → Nat
  | [] => 0
  | c :: rest => c.utf8Size + byteLength rest

/-- Cuts a text at a byte position; there is no cut inside a character or behind the end. -/
def cutAtByte? : Nat → List Char → Option (List Char × List Char)
  | 0, text => some ([], text)
  | _ + 1, [] => none
  | n + 1, c :: rest =>
    if n + 1 < c.utf8Size then none
    else (cutAtByte? (n + 1 - c.utf8Size) rest).map fun (before, after) => (c :: before, after)

def fromByte? (start : Nat) (text : List Char) : Option (List Char) :=
  (cutAtByte? start text).map (·.2)

def betweenBytes? (start stop : Nat) (text : List Char) : Option (List Char) := do
  let (before, _) ← cutAtByte? stop text
  fromByte? start before

end NodeRollout.Text
