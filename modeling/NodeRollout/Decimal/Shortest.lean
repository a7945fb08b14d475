import NodeRollout.Decimal.Layout
/-!
The shortest digits of a binary64 number: the fewest that read back as the same number, and of those
the nearest ones.

All arithmetic is exact. The numbers that read back as `m · 2^q` form an interval around it, whose
ends belong to it when `m` is even; a point of a decimal grid lies in the interval only if one of the
two grid points next to the number does, so it is enough to test those, from the coarsest grid on.
-/
namespace NodeRollout.Decimal

/-- `m · 2^q` and the ends of the interval that reads back as it, over one denominator. -/
structure Interval where
  low : Nat
  value : Nat
  high : Nat
  denominator : Nat
  closed : Bool

/-- The interval of `m · 2^q`. Below a power of two the next smaller number is only half as far. -/
def Interval.ofBinary (m : Nat) (q : Int) : Interval :=
  let up := 1 <<< q.toNat
  let below := if m = 1 <<< 52 ∧ -1074 < q then 1 else 2
  ⟨(4 * m - below) * up, 4 * m * up, (4 * m + 2) * up, 4 * (1 <<< (-q).toNat), m % 2 = 0⟩

/-- Whether `d · 10^e` lies in the interval. -/
def Interval.contains (i : Interval) (d : Nat) (e : Int) : Bool :=
  let x := d * Nat.pow 10 e.toNat * i.denominator
  let scale := Nat.pow 10 (-e).toNat
  if i.closed then i.low * scale ≤ x && x ≤ i.high * scale
  else i.low * scale < x && x < i.high * scale

/-- The grid point in the interval on the grid of step `10^e`, the nearer one if there are two. -/
def Interval.gridPoint? (i : Interval) (e : Int) : Option Nat :=
  let numerator := i.value * Nat.pow 10 (-e).toNat
  let step := i.denominator * Nat.pow 10 e.toNat
  let d := numerator / step
  match i.contains d e && d != 0, i.contains (d + 1) e with
  | true, true =>
    let rest := numerator % step
    some (if 2 * rest < step ∨ (2 * rest = step ∧ d % 2 = 0) then d else d + 1)
  | true, false => some d
  | false, true => some (d + 1)
  | false, false => none

/-- The least `k` with `value < 10^k`, searched downwards from one that is large enough. -/
def Interval.magnitude (i : Interval) : (fuel : Nat) → (k : Int) → Int
  | 0, k => k
  | fuel + 1, k =>
    if i.value * Nat.pow 10 (-(k - 1)).toNat < i.denominator * Nat.pow 10 (k - 1).toNat then
      i.magnitude fuel (k - 1)
    else k

/-- The first grid with a point in the interval, from `n` digits on. -/
def Interval.search (i : Interval) (k : Int) : (fuel n : Nat) → Digits
  | 0, n => ⟨0, k - n⟩
  | fuel + 1, n =>
    match i.gridPoint? (k - n) with
    | some d => ⟨d, k - n⟩
    | none => i.search k fuel (n + 1)

def Digits.trimmed (fuel : Nat) (d : Digits) : Digits :=
  match fuel with
  | 0 => d
  | fuel + 1 =>
    if d.digits ≠ 0 ∧ d.digits % 10 = 0 then trimmed fuel ⟨d.digits / 10, d.exponent + 1⟩ else d

/-- The shortest digits of `m · 2^q`. -/
def shortest (m : Nat) (q : Int) : Digits :=
  let i := Interval.ofBinary m q
  (i.search (i.magnitude 700 310) 18 1).trimmed 20

end NodeRollout.Decimal
