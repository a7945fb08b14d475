import NodeRollout.Decimal.Shortest
/-!
Numbers of JSON texts. A number written without fraction and exponent is an integer as long as it
fits into 64 bits, counting from the least signed to the greatest unsigned one; every other number,
and a negative zero, is a binary64 number, kept by its bits. One too large for that has no value.
-/
namespace NodeRollout.Json

/-- The value of a number. -/
inductive Number where
  /-- An integer from 0 below 2^64. -/
  | natural (n : Nat)
  /-- The negative of an integer from 1 to 2^63. -/
  | negative (n : Nat)
  /-- A binary64 number. -/
  | real (bits : UInt64)
  deriving DecidableEq, Inhabited, Repr

/-- A number as it is written. -/
structure Numeral where
  negative : Bool
  whole : List Char
  fraction : Option (List Char)
  /-- The sign of the exponent, `true` for minus, and its digits. -/
  exponent : Option (Bool × List Char)
  deriving DecidableEq, Repr

namespace Numeral

def digits (cs : List Char) : List Char × List Char :=
  (cs.takeWhile Char.isDigit, cs.dropWhile Char.isDigit)

/-- The whole part: a zero alone, or digits that do not start with one. -/
def readWhole (cs : List Char) : Option (List Char × List Char) :=
  match digits cs with
  | ([], _) => none
  | ('0' :: _ :: _, _) => none
  | (ds, rest) => some (ds, rest)

/-- A fraction, if a point follows; it needs a digit. -/
def readFraction : List Char → Option (Option (List Char) × List Char)
  | '.' :: cs =>
    match digits cs with
    | ([], _) => none
    | (ds, rest) => some (some ds, rest)
  | cs => some (none, cs)

/-- The digits of an exponent; it needs one. -/
def readPower (negative : Bool) (cs : List Char) :
    Option (Option (Bool × List Char) × List Char) :=
  match digits cs with
  | ([], _) => none
  | (ds, rest) => some (some (negative, ds), rest)

def readExponent : List Char → Option (Option (Bool × List Char) × List Char)
  | c :: cs =>
    if c = 'e' ∨ c = 'E' then
      match cs with
      | '-' :: cs => readPower true cs
      | '+' :: cs => readPower false cs
      | cs => readPower false cs
    else some (none, c :: cs)
  | [] => some (none, [])

/-- The longest numeral at the start; `none` when the text there is not one. -/
def read (cs : List Char) : Option (Numeral × List Char) := do
  let (negative, cs) := match cs with
    | '-' :: cs => (true, cs)
    | cs => (false, cs)
  let (whole, cs) ← readWhole cs
  let (fraction, cs) ← readFraction cs
  let (exponent, cs) ← readExponent cs
  return (⟨negative, whole, fraction, exponent⟩, cs)

theorem length_of_digits (cs : List Char) :
    (digits cs).1.length + (digits cs).2.length = cs.length := by
  rw [← List.length_append]
  simp [digits]

theorem length_of_readWhole {cs ds rest : List Char} (h : readWhole cs = some (ds, rest)) :
    rest.length < cs.length := by
  have hd := length_of_digits cs
  revert h hd
  unfold readWhole
  split
  · simp
  · simp
  · rename_i hne _ hsplit
    rw [hsplit]
    simp only [Option.some.injEq, Prod.mk.injEq]
    intro hr hd
    have hpos := List.length_pos_iff.mpr hne
    rw [← hr.2]
    omega

theorem length_of_readFraction {cs rest : List Char} {f : Option (List Char)}
    (h : readFraction cs = some (f, rest)) : rest.length ≤ cs.length := by
  revert h
  unfold readFraction
  split
  · rename_i cs
    have hd := length_of_digits cs
    split
    · simp
    · rename_i hsplit
      rw [hsplit] at hd
      simp only [Option.some.injEq, Prod.mk.injEq, List.length_cons]
      intro hr
      rw [← hr.2]
      simp only at hd
      omega
  · simp only [Option.some.injEq, Prod.mk.injEq]
    rintro ⟨-, rfl⟩
    exact Nat.le_refl _

theorem length_of_readPower {negative : Bool} {cs rest : List Char}
    {e : Option (Bool × List Char)} (h : readPower negative cs = some (e, rest)) :
    rest.length ≤ cs.length := by
  have hd := length_of_digits cs
  revert h hd
  unfold readPower
  split
  · simp
  · rename_i hsplit
    rw [hsplit]
    simp only [Option.some.injEq, Prod.mk.injEq]
    rintro ⟨-, rfl⟩ hd
    omega

theorem length_of_readExponent {cs rest : List Char} {e : Option (Bool × List Char)}
    (h : readExponent cs = some (e, rest)) : rest.length ≤ cs.length := by
  revert h
  unfold readExponent
  split
  · split
    · split <;> intro h <;> have := length_of_readPower h <;> simp only [List.length_cons] at * <;> omega
    · simp only [Option.some.injEq, Prod.mk.injEq]
      rintro ⟨-, rfl⟩
      exact Nat.le_refl _
  · simp only [Option.some.injEq, Prod.mk.injEq]
    rintro ⟨-, rfl⟩
    exact Nat.le_refl _

theorem length_of_read {cs rest : List Char} {n : Numeral} (h : read cs = some (n, rest)) :
    rest.length < cs.length := by
  revert h
  unfold read
  intro h
  simp only [Option.pure_def, Option.bind_eq_bind, Option.bind_eq_some_iff, Option.some.injEq,
    Prod.mk.injEq, Prod.exists] at h
  obtain ⟨whole, afterWhole, hw, fraction, afterFraction, hf, exponent, afterExponent, he, -, rfl⟩ := h
  have hw := length_of_readWhole hw
  have hf := length_of_readFraction hf
  have he := length_of_readExponent he
  split at hw
  · simp only [List.length_cons] at *
    omega
  · simp only at hw
    omega

def value (ds : List Char) : Nat := ds.foldl (fun n c => 10 * n + (c.toNat - '0'.toNat)) 0

/-- Takes digits into a significand as long as it stays below 2^64; the rest is left. -/
def absorb (significand : Nat) : List Char → Nat × List Char
  | [] => (significand, [])
  | c :: rest =>
    let next := 10 * significand + (c.toNat - '0'.toNat)
    if next < 1 <<< 64 then absorb next rest else (significand, c :: rest)

/-- `f · 10^exponent` by one rounding; `none` when it is too large. A number far below one is brought
closer by steps of 10^308 first. -/
def scale (f : Float) (exponent : Int) : (steps : Nat) → Option Float
  | 0 => some f
  | steps + 1 =>
    let power := Float.ofScientific 1 false exponent.natAbs
    if exponent.natAbs ≤ 308 then
      if 0 ≤ exponent then
        let g := f * power
        if g.isInf then none else some g
      else some (f / power)
    else if f == 0 then some f
    else if 0 ≤ exponent then none
    else scale (f / Float.ofScientific 1 false 308) (exponent + 308) steps

/-- The binary64 value: leading digits up to 64 bits, scaled by the place of the last one taken. -/
def real? (n : Numeral) : Option UInt64 :=
  let fraction := n.fraction.getD []
  let (whole, wholeLeft) := absorb 0 n.whole
  let (significand, fractionLeft) := absorb whole fraction
  let place : Int := wholeLeft.length - (fraction.length - fractionLeft.length)
  let signed (f : Float) : UInt64 := (if n.negative then -f else f).toBits
  match n.exponent with
  | none => (scale significand.toUInt64.toFloat place 4).map signed
  | some (minus, ds) =>
    let power := value ds
    if 1 <<< 31 ≤ power then
      if significand ≠ 0 ∧ !minus then none else some (signed 0)
    else
      let exponent : Int := if minus then place - power else place + power
      (scale significand.toUInt64.toFloat exponent 4).map signed

/-- The value of a numeral; `none` when it is too large. -/
def number? (n : Numeral) : Option Number :=
  if n.fraction.isNone && n.exponent.isNone then
    let k := value n.whole
    if !n.negative && k < 1 <<< 64 then some (.natural k)
    else if n.negative && 0 < k && k ≤ 1 <<< 63 then some (.negative k)
    else n.real?.map .real
  else n.real?.map .real

end Numeral

namespace Number

/-- Numbers of messages and of written JSON are positional from 10^-5 up to below 10^16. -/
def format : Decimal.FloatFormat := ⟨-5, 15, true, 1⟩

def text : Number → String
  | .natural n => toString n
  | .negative n => "-" ++ toString n
  | .real bits => format.text Decimal.shortest bits

end Number

end NodeRollout.Json
