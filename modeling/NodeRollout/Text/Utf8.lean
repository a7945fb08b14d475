/-!
Text from bytes that may not be UTF-8. Each longest start of a character that does not go on as one
becomes a replacement character, and reading goes on at the byte that broke it.
-/
namespace NodeRollout.Text

/-- Where the reader stands: between characters, or inside one with so many bytes to come, the range
of the next one, and the value of the bits so far. -/
inductive Utf8State where
  | between
  | inside (left low high value : Nat)
  deriving DecidableEq, Repr

/-- Stands for bytes that are no character. -/
def replacement : Char := '\uFFFD'

def firstByte (b : Nat) : List Char × Utf8State :=
  if b < 0x80 then ([Char.ofNat b], .between)
  else if 0xC2 ≤ b ∧ b < 0xE0 then ([], .inside 1 0x80 0xBF (b - 0xC0))
  else if b = 0xE0 then ([], .inside 2 0xA0 0xBF 0)
  else if b = 0xED then ([], .inside 2 0x80 0x9F 0xD)
  else if 0xE0 ≤ b ∧ b < 0xF0 then ([], .inside 2 0x80 0xBF (b - 0xE0))
  else if b = 0xF0 then ([], .inside 3 0x90 0xBF 0)
  else if 0xF0 ≤ b ∧ b < 0xF4 then ([], .inside 3 0x80 0xBF (b - 0xF0))
  else if b = 0xF4 then ([], .inside 3 0x80 0x8F 4)
  else ([replacement], .between)

/-- The characters a byte completes, and the reader after it. -/
def nextByte (state : Utf8State) (b : Nat) : List Char × Utf8State :=
  match state with
  | .between => firstByte b
  | .inside left low high value =>
    if low ≤ b ∧ b ≤ high then
      let value := value * 64 + (b - 0x80)
      if left ≤ 1 then ([Char.ofNat value], .between) else ([], .inside (left - 1) 0x80 0xBF value)
    else
      let (cs, state) := firstByte b
      (replacement :: cs, state)

/-- The characters of the bytes from a state on; a character that stays unfinished is replaced. -/
def charsFrom (state : Utf8State) : List UInt8 → List Char
  | [] => if state = .between then [] else [replacement]
  | b :: rest =>
    let (cs, state) := nextByte state b.toNat
    cs ++ charsFrom state rest

def ofBytesLossy (bytes : List UInt8) : String := String.ofList (charsFrom .between bytes)

def ofBytes? (bytes : List UInt8) : Option String := String.fromUTF8? ⟨bytes.toArray⟩

end NodeRollout.Text
