/-!
# Floating-point numbers

A shader's `float` is a binary32 number, and the constants of the tree are handed over as binary64
numbers. Both are the same structure at two widths: a sign, an exponent field and a fraction field.
This module holds that structure, what a number is worth as an exact rational, the order of the
numbers, and the one rounding (to nearest, ties to the even neighbour) that every inexact operation
ends with. `Single` and `Double` name the two widths.

The exact worth of a number is a `Rat`, so an operation is stated as "do it exactly, then round".
-/

namespace ShaderAlgebra

/-- Two to the power `n`. -/
def twoTo (n : Nat) : Nat := Nat.pow 2 n

/-- A binary interchange format, given by the widths of its two fields. -/
structure Format where
  exponentWidth : Nat
  fractionWidth : Nat
deriving DecidableEq, Repr

namespace Format

/-- Binary32. -/
def single : Format := ⟨8, 23⟩

/-- Binary64. -/
def double : Format := ⟨11, 52⟩

/-- The exponent field of the infinities and of NaN: every bit set. -/
def topExponent (f : Format) : Nat := twoTo f.exponentWidth - 1

/-- The exponent of the smallest positive number, a power of two. -/
def leastUnit (f : Format) : Int :=
  2 - (twoTo (f.exponentWidth - 1) : Int) - (f.fractionWidth : Int)

end Format

/-- A number of the format `f`, by its three fields. -/
structure Floating (f : Format) where
  negative : Bool
  exponent : BitVec f.exponentWidth
  fraction : BitVec f.fractionWidth
deriving DecidableEq, Repr

/-- A binary32 number. -/
abbrev Single := Floating Format.single

/-- A binary64 number. -/
abbrev Double := Floating Format.double

namespace Floating

variable {f : Format}

/-! ## Distinguished numbers -/

/-- Zero of the given sign. -/
def zero (negative : Bool) : Floating f := ⟨negative, 0, 0⟩

/-- The infinity of the given sign. -/
def infinity (negative : Bool) : Floating f :=
  ⟨negative, BitVec.ofNat _ f.topExponent, 0⟩

/-- The quiet NaN with no payload: the only NaN that an operation produces. -/
def nan : Floating f :=
  ⟨false, BitVec.ofNat _ f.topExponent, BitVec.ofNat _ (twoTo (f.fractionWidth - 1))⟩

def isNaN (x : Floating f) : Bool :=
  x.exponent.toNat == f.topExponent && x.fraction.toNat != 0

def isInfinite (x : Floating f) : Bool :=
  x.exponent.toNat == f.topExponent && x.fraction.toNat == 0

def isFinite (x : Floating f) : Bool := x.exponent.toNat != f.topExponent

def isZero (x : Floating f) : Bool := x.exponent.toNat == 0 && x.fraction.toNat == 0

/-! ## Exact worth -/

/-- The integer significand: the fraction, with its hidden leading bit unless the number is
subnormal. -/
def significand (x : Floating f) : Nat :=
  if x.exponent.toNat = 0 then x.fraction.toNat else twoTo f.fractionWidth + x.fraction.toNat

/-- The exponent of the unit in the last place of the significand. -/
def unitExponent (x : Floating f) : Int :=
  f.leastUnit + ((x.exponent.toNat - 1 : Nat) : Int)

/-- The absolute value of a finite number. -/
def magnitude (x : Floating f) : Rat := (x.significand : Rat) * (2 : Rat) ^ x.unitExponent

/-- What a finite number is worth. -/
def value (x : Floating f) : Rat := if x.negative then -x.magnitude else x.magnitude

/-! ## Order

The numbers other than NaN are ordered as their fields read as one integer, with the sign applied,
so the two zeros are equal. NaN is neither equal to, nor below, nor above anything. -/

/-- The position of a number among the numbers of its format, counted from zero. -/
def rank (x : Floating f) : Int :=
  let steps : Int := (x.exponent.toNat * twoTo f.fractionWidth + x.fraction.toNat : Nat)
  if x.negative then -steps else steps

def equal (x y : Floating f) : Bool := !x.isNaN && !y.isNaN && x.rank == y.rank

def less (x y : Floating f) : Bool := !x.isNaN && !y.isNaN && x.rank < y.rank

def lessEqual (x y : Floating f) : Bool := !x.isNaN && !y.isNaN && x.rank ≤ y.rank

/-! ## Rounding -/

/-- The integer nearest to a non-negative rational; a half goes to the even neighbour. -/
def nearestEven (q : Rat) : Nat :=
  let below := q.floor.toNat
  let rest := q - (below : Rat)
  if rest < 1 / 2 then below
  else if 1 / 2 < rest then below + 1
  else if below % 2 = 0 then below
  else below + 1

/-- The largest `e` with `2 ^ e ≤ q`, for a positive rational `q`. -/
def floorLog2 (q : Rat) : Int :=
  let estimate : Int := (q.num.natAbs.log2 : Int) - (q.den.log2 : Int)
  if q < (2 : Rat) ^ estimate then estimate - 1 else estimate

/-- The number with `count` units of `2 ^ unit`, where a count of one bit too many carries into the
exponent and an exponent that is too large gives the infinity. -/
def assemble (negative : Bool) (count : Nat) (unit : Int) : Floating f :=
  if count < twoTo f.fractionWidth then
    ⟨negative, 0, BitVec.ofNat _ count⟩
  else
    let carries := count == twoTo (f.fractionWidth + 1)
    let field := (unit - f.leastUnit).toNat + (if carries then 2 else 1)
    if f.topExponent ≤ field then infinity negative
    else
      ⟨negative, BitVec.ofNat _ field,
        BitVec.ofNat _ (if carries then 0 else count - twoTo f.fractionWidth)⟩

/-- The number nearest to a non-negative rational, with the given sign. -/
def ofMagnitude (negative : Bool) (q : Rat) : Floating f :=
  if q = 0 then zero negative
  else
    let unit := max (floorLog2 q - (f.fractionWidth : Int)) f.leastUnit
    assemble negative (nearestEven (q / (2 : Rat) ^ unit)) unit

/-- The number nearest to a rational; zero is positive. -/
def ofRat (q : Rat) : Floating f := ofMagnitude (q < 0) q.abs

/-- The number nearest to an integer. -/
def ofInt (i : Int) : Floating f := ofRat (i : Rat)

/-- The same number in another format, rounded if that format is narrower. -/
def convert (g : Format) (x : Floating f) : Floating g :=
  if x.isNaN then nan
  else if x.isInfinite then infinity x.negative
  else ofMagnitude x.negative x.magnitude

/-- The integer part of a finite number. -/
def truncated (x : Floating f) : Int :=
  if x.negative then -x.magnitude.floor else x.magnitude.floor

/-- The integer part, held to the range of a 32-bit integer; NaN gives zero. -/
def toInt32 (x : Floating f) : Int32 :=
  if x.isNaN then 0
  else if x.isInfinite then (if x.negative then Int32.minValue else Int32.maxValue)
  else Int32.ofInt (max Int32.minValue.toInt (min Int32.maxValue.toInt x.truncated))

/-! ## Bit patterns -/

/-- The number with the given bit pattern. -/
def ofBits (n : Nat) : Floating f :=
  { negative := n / twoTo (f.exponentWidth + f.fractionWidth) % 2 == 1
    exponent := BitVec.ofNat _ (n / twoTo f.fractionWidth)
    fraction := BitVec.ofNat _ n }

/-- The bit pattern of a number. -/
def toBits (x : Floating f) : Nat :=
  ((if x.negative then 1 else 0) * twoTo f.exponentWidth + x.exponent.toNat)
    * twoTo f.fractionWidth + x.fraction.toNat

end Floating

end ShaderAlgebra
