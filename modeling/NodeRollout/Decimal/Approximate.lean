import NodeRollout.Decimal.Layout
/-!
The digits of a binary64 number by arithmetic on 64 bits. The number and the ends of the interval that
reads back as it are scaled by a power of ten, of which only 64 bits are kept, so that the upper end
has between 4 and 32 bits before the point. Digits are then cut off the upper end until what is left
is within the interval, which is taken one unit smaller at each end to stay clear of the rounding.

The digits read back as the number and are mostly the shortest ones, but not always, and a number
with many of them may get a last digit that is not the nearest.
-/
namespace NodeRollout.Decimal

/-- A number `significand · 2^exponent`, of whose significand 64 bits are kept. -/
structure Rounded where
  significand : Nat
  exponent : Int
  deriving DecidableEq, Repr

/-- `10^power` to the nearest significand of 64 bits. -/
def Rounded.powerOfTen (power : Int) : Rounded :=
  let numerator := Nat.pow 10 power.toNat
  let denominator := Nat.pow 10 (-power).toNat
  let significand (places : Int) : Nat :=
    (2 * (numerator <<< places.toNat) / (denominator <<< (-places).toNat) + 1) / 2
  let places : Int := 63 + denominator.log2 - numerator.log2
  if significand places < 1 <<< 63 then ⟨significand (places + 1), -(places + 1)⟩
  else ⟨significand places, -places⟩

/-- The exponent of the power of ten that scales numbers with 64 bits and this binary exponent. The
powers in use are eight apart. -/
def scalingPower (exponent : Int) : Int :=
  let least := -(30103 * (61 + exponent) / 100000)
  8 * ((least + 347) / 8) - 340

/-- The interval of a number, in units of `2^-places`. -/
structure Window where
  high : Nat
  /-- How far below the upper end the number is. -/
  offset : Nat
  width : Nat
  places : Nat

/-- The interval of `m · 2^q`, scaled, and the power of ten that scaled it. -/
def Window.ofBinary (m : Nat) (q : Int) : Window × Int :=
  let shift := 63 - (2 * m + 1).log2
  let exponent := q - 1 - shift
  let power := scalingPower exponent
  let factor := Rounded.powerOfTen power
  let scaled (significand : Nat) : Nat :=
    (significand * factor.significand + (1 <<< 63)) >>> 64
  let high := scaled ((2 * m + 1) <<< shift) - 1
  let low := scaled (if m = 1 <<< 52 then (4 * m - 1) <<< (shift - 1) else (2 * m - 1) <<< shift) + 1
  (⟨high, high - scaled (m <<< (shift + 1)), high - low, (-(exponent + factor.exponent + 64)).toNat⟩,
    power)

/-- Takes the last digit down as long as that stays in the interval and comes nearer to the number.
Cut off so far is `rest`; one more unit of the last digit is `unit`. -/
def nearer (digits rest unit offset width : Nat) : Nat :=
  if _h : 0 < unit ∧ rest < offset ∧ rest + unit ≤ width ∧
      (rest + unit < offset ∨ rest + unit - offset < offset - rest) then
    nearer (digits - 1) (rest + unit) unit offset width
  else digits
termination_by offset - rest

/-- The digits before the point, down to the largest power of ten at which the rest is within the
interval; `none` when there is none before the point. -/
def Window.wholeDigits? (w : Window) : Option Digits :=
  (List.range 10).reverse.findSome? fun power =>
    let unit := Nat.pow 10 power <<< w.places
    let rest := w.high % unit
    if rest ≤ w.width then some ⟨nearer (w.high / unit) rest unit w.offset w.width, power⟩ else none

/-- Digits behind the point, one for each step, until the rest is within the interval. From the ninth
place on the number itself is no longer looked at. -/
def Window.fractionDigits (w : Window) (digits rest width : Nat) : (fuel place : Nat) → Digits
  | 0, place => ⟨digits, -place⟩
  | fuel + 1, place =>
    let unit := 1 <<< w.places
    let place := place + 1
    let width := 10 * width
    let digits := 10 * digits + 10 * rest / unit
    let rest := 10 * rest % unit
    if rest < width then
      let offset := if place < 9 then w.offset * Nat.pow 10 place else 0
      ⟨nearer digits rest unit offset width, -place⟩
    else w.fractionDigits digits rest width fuel place

def Window.digits (w : Window) : Digits :=
  match w.wholeDigits? with
  | some d => d
  | none =>
    let unit := 1 <<< w.places
    w.fractionDigits (w.high / unit) (w.high % unit) w.width 20 0

/-- The digits of `m · 2^q` by arithmetic on 64 bits. -/
def approximate (m : Nat) (q : Int) : Digits :=
  let (window, power) := Window.ofBinary m q
  let d := window.digits
  ⟨d.digits, d.exponent - power⟩

end NodeRollout.Decimal
