import ShaderAlgebra.Number.Floating

/-!
# Decimal text of a number

A finite number is written with the fewest digits that read back as it, in positional notation
whatever its size. The numbers that read back as `x` fill an interval around `x`; for one digit, two
digits and so on, the two neighbours of `x` on that decimal grid are tried, and the first grid with
a neighbour inside the interval wins. Of two neighbours inside, the nearer is taken, and the upper
one if they are equally near.
-/

namespace ShaderAlgebra.Floating

variable {f : Format}

/-- Ten to an integral power. -/
def tenTo (k : Int) : Rat := (10 : Rat) ^ k

/-- The number of decimal digits of a positive integer. -/
def digitCount (n : Nat) : Nat := (Nat.toDigits 10 n).length

/-- The `e` with `10 ^ (e - 1) ≤ q < 10 ^ e`, for a positive rational `q`. -/
def decimalExponent (q : Rat) : Int :=
  if 1 ≤ q then (digitCount q.floor.toNat : Int)
  else 1 - (digitCount ((1 / q).ceil.toNat - 1) : Int)

/-- Half the distance to the next number below. It is shorter where the exponent steps down. -/
def marginBelow (x : Floating f) : Rat :=
  let unit := (2 : Rat) ^ x.unitExponent
  if x.fraction = 0 && 1 < x.exponent.toNat then unit / 4 else unit / 2

/-- Half the distance to the next number above. -/
def marginAbove (x : Floating f) : Rat := (2 : Rat) ^ x.unitExponent / 2

/-- Whether a distance stays within a margin. The margin itself belongs to a number with an even
significand, since ties read as even. -/
def within (x : Floating f) (distance margin : Rat) : Bool :=
  if x.significand % 2 = 0 then distance ≤ margin else distance < margin

/-- The best decimal of `count` significant digits, as an integer over the grid, if one of the two
neighbours reads back as `x`. -/
def neighbour? (x : Floating f) (exponent : Int) (count : Nat) : Option Nat :=
  let grid := tenTo (exponent - (count : Int))
  let below := (x.magnitude / grid).floor.toNat
  let down := x.magnitude - (below : Rat) * grid
  let up := ((below + 1 : Nat) : Rat) * grid - x.magnitude
  match within x down (marginBelow x), within x up (marginAbove x) with
  | true, true => some (if down < up then below else below + 1)
  | true, false => some below
  | false, true => some (below + 1)
  | false, false => none

/-- The digits of a decimal of `count` digits below `10 ^ exponent`, and the power of ten of the
last of them. Where the digits reach the power of ten itself, one digit is enough. -/
def settled (exponent : Int) (count digits : Nat) : Nat × Int :=
  if digits = Nat.pow 10 count then (1, exponent) else (digits, exponent - (count : Int))

/-- The digits of a positive finite number and the power of ten of the last of them. -/
def shortest (x : Floating f) : Nat × Int :=
  let exponent := decimalExponent x.magnitude
  let found := (List.range (f.fractionWidth + 1)).findSome? fun k =>
    (neighbour? x exponent (k + 1)).map (settled exponent (k + 1))
  found.getD (0, 0)

/-- An integer times a power of ten, written out. -/
def positional (digits : Nat) (power : Int) : String :=
  if 0 ≤ power then
    String.ofList (Nat.toDigits 10 digits ++ List.replicate power.toNat '0')
  else
    let places := power.natAbs
    let all := Nat.toDigits 10 digits
    let padded := List.replicate (places + 1 - all.length) '0' ++ all
    let whole := padded.length - places
    String.ofList (padded.take whole ++ '.' :: padded.drop whole)

/-- The text of a finite number: the fewest digits that read back, never an exponent, and a sign
also for the negative zero. -/
def toDecimal (x : Floating f) : String :=
  let sign := if x.negative then "-" else ""
  if x.isZero then sign ++ "0"
  else
    let (digits, power) := shortest x
    sign ++ positional digits power

end ShaderAlgebra.Floating
