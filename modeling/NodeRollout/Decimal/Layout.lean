/-!
Decimal text of binary64 numbers: where the point stands and how an exponent is written is a
`FloatFormat`. Which digits stand for a number is decided elsewhere.
-/
namespace NodeRollout.Decimal

/-- A positive number as `digits · 10^exponent`. -/
structure Digits where
  digits : Nat
  exponent : Int
  deriving DecidableEq, Repr

/-- How a number is laid out: the exponents of the first digit that are written positionally, and
the form of a written exponent. -/
structure FloatFormat where
  leastPositional : Int
  greatestPositional : Int
  plusSign : Bool
  exponentWidth : Nat

/-- Digits with a point somewhere in, before or behind them. -/
def FloatFormat.positional (ds : List Char) (exponent : Int) : List Char :=
  let point := ds.length + exponent
  if 0 ≤ exponent then ds ++ List.replicate exponent.toNat '0' ++ ['.', '0']
  else if 0 < point then ds.take point.toNat ++ '.' :: ds.drop point.toNat
  else ['0', '.'] ++ List.replicate (-point).toNat '0' ++ ds

/-- One digit, the point if more follow, and the exponent of the first digit. -/
def FloatFormat.scientific (format : FloatFormat) (ds : List Char) (first : Int) : List Char :=
  let sign := if first < 0 then ['-'] else if format.plusSign then ['+'] else []
  let power := (toString first.natAbs).toList
  let padding := List.replicate (format.exponentWidth - power.length) '0'
  let fraction := match ds.drop 1 with
    | [] => []
    | rest => '.' :: rest
  ds.take 1 ++ fraction ++ 'e' :: sign ++ padding ++ power

def FloatFormat.digits (format : FloatFormat) (d : Digits) : List Char :=
  let ds := (toString d.digits).toList
  let first := ds.length + d.exponent - 1
  if format.leastPositional ≤ first ∧ first ≤ format.greatestPositional then
    FloatFormat.positional ds d.exponent
  else format.scientific ds first

/-- The text of the finite binary64 number with these bits, where `digitsOf` chooses the digits of a
positive number `m · 2^q`. -/
def FloatFormat.text (format : FloatFormat) (digitsOf : Nat → Int → Digits) (bits : UInt64) :
    String :=
  let sign := if bits.toNat / (1 <<< 63) = 1 then ['-'] else []
  let exponent : Nat := bits.toNat / (1 <<< 52) % (1 <<< 11)
  let fraction : Nat := bits.toNat % (1 <<< 52)
  let body :=
    if exponent = 0 ∧ fraction = 0 then ['0', '.', '0']
    else if exponent = 0 then format.digits (digitsOf fraction (-1074))
    else format.digits (digitsOf ((1 <<< 52) + fraction) (Int.ofNat exponent - 1075))
  String.ofList (sign ++ body)

end NodeRollout.Decimal
