/-!
Natural numbers in decimal digits, and the values of hexadecimal ones.
-/
namespace NodeRollout.Text

def readDigits (cs : List Char) : Option Nat :=
  if cs.isEmpty ∨ !cs.all Char.isDigit then none
  else some (cs.foldl (fun n c => 10 * n + (c.toNat - '0'.toNat)) 0)

/-- The number written by digits behind a plus sign or none, if it fits into 64 bits. -/
def readUnsigned (cs : List Char) : Option Nat :=
  let number := match cs with
    | '+' :: digits => readDigits digits
    | digits => readDigits digits
  number.filter (· < 1 <<< 64)

def hexDigit? (c : Char) : Option Nat :=
  if c.isDigit then some (c.toNat - '0'.toNat)
  else if 'a' ≤ c ∧ c ≤ 'f' then some (c.toNat - 'a'.toNat + 10)
  else if 'A' ≤ c ∧ c ≤ 'F' then some (c.toNat - 'A'.toNat + 10)
  else none

end NodeRollout.Text
