import ShaderAlgebra.Number.Arithmetic

/-!
# Elementary functions

The trigonometric, exponential and logarithmic functions of a shader, on binary32 numbers, each
rounded to nearest from an approximation with far more places than any binary32 argument needs.

The approximations work in fixed point: an integer stands for that many parts of `2 ^ places`. A
series is summed from its last term inwards, which needs no stopping test. An argument is first
brought into the small interval where a fixed number of terms is more than enough: angles by
multiples of a quarter turn, exponents by multiples of `ln 2`, tangents by halving the angle.

Around each approximation stands the list of arguments at which the function is exact, infinite or
undefined.
-/

namespace ShaderAlgebra.Single

open Floating

/-! ## Fixed point -/

/-- Binary places of the working precision. -/
private def places : Nat := 600

/-- Terms taken of every series. -/
private def terms : Nat := 200

/-- The number one. -/
private def fixedOne : Int := (twoTo places : Int)

/-- The product of two fixed-point numbers. -/
private def times (a b : Int) : Int := (a * b) >>> places

private def toFixed (q : Rat) : Int := (q * (fixedOne : Rat)).floor

private def ofFixed (a : Int) : Rat := (a : Rat) / (fixedOne : Rat)

/-- `next 0 (next 1 (next 2 …))`, cut off after the last of the terms. -/
private def nested (next : Nat → Int → Int) : Int := (List.range terms).foldr next 0

/-! ## Series -/

/-- `exp r = 1 + r (1 + r / 2 (1 + r / 3 …))` -/
private def expSeries (r : Int) : Int :=
  nested fun k rest => fixedOne + times r rest / (k + 1)

/-- `sin r = r (1 - r² / (2 · 3) (1 - r² / (4 · 5) …))` -/
private def sinSeries (r : Int) : Int :=
  times r (nested fun k rest => fixedOne - times (times r r) rest / ((2 * k + 2) * (2 * k + 3)))

/-- `cos r = 1 - r² / (1 · 2) (1 - r² / (3 · 4) …)` -/
private def cosSeries (r : Int) : Int :=
  nested fun k rest => fixedOne - times (times r r) rest / ((2 * k + 1) * (2 * k + 2))

/-- `atan t = t (1 - t² (1 / 3 - t² (1 / 5 …)))` -/
private def atanSeries (t : Int) : Int :=
  times t (nested fun k rest => fixedOne / (2 * k + 1) - times (times t t) rest)

/-- `atanh t = t (1 + t² (1 / 3 + t² (1 / 5 …)))` -/
private def atanhSeries (t : Int) : Int :=
  times t (nested fun k rest => fixedOne / (2 * k + 1) + times (times t t) rest)

/-- Half a turn, by Machin's formula. -/
private def pi : Int := 16 * atanSeries (fixedOne / 5) - 4 * atanSeries (fixedOne / 239)

/-- The natural logarithm of two. -/
private def ln2 : Int := 2 * atanhSeries (fixedOne / 3)

/-! ## Approximations on rationals -/

/-- The sine and the cosine of an angle, from its distance to the nearest quarter turn. -/
private def sinCos (x : Rat) : Rat × Rat :=
  let quarter := pi / 2
  let angle := toFixed x
  let turns := (angle + quarter / 2) / quarter
  let rest := angle - turns * quarter
  let s := ofFixed (sinSeries rest)
  let c := ofFixed (cosSeries rest)
  match (turns % 4).toNat with
  | 0 => (s, c)
  | 1 => (c, -s)
  | 2 => (-s, -c)
  | _ => (-c, s)

/-- `exp x`, for an exponent of moderate size. -/
private def expOf (x : Rat) : Rat :=
  let exponent := toFixed x
  let doublings := (exponent + ln2 / 2) / ln2
  ofFixed (expSeries (exponent - doublings * ln2)) * (2 : Rat) ^ doublings

/-- `ln x`, for a positive `x`. -/
private def lnOf (x : Rat) : Rat :=
  let doublings := floorLog2 x
  let m := x / (2 : Rat) ^ doublings
  ofFixed (2 * atanhSeries (toFixed ((m - 1) / (m + 1))) + doublings * ln2)

/-- The tangent of half the angle whose tangent is `t`. -/
private def halfTangent (t : Rat) : Rat :=
  t / (1 + sqrtRat places (1 + t * t))

/-- `atan t`, for `t` between zero and one. -/
private def atanSmall (t : Rat) : Rat :=
  8 * ofFixed (atanSeries (toFixed (halfTangent (halfTangent (halfTangent t)))))

/-- `atan t`, for a non-negative `t`. -/
private def atanOf (t : Rat) : Rat :=
  if t ≤ 1 then atanSmall t else ofFixed pi / 2 - atanSmall (1 / t)

/-- `asin t`, for `t` between zero and one. -/
private def asinOf (t : Rat) : Rat :=
  if t = 1 then ofFixed pi / 2 else atanOf (t / sqrtRat places (1 - t * t))

/-- The binary32 number nearest to an approximated result. The approximation is first read to two
hundred significant bits, so a result that is exactly halfway between two numbers is seen to be. -/
private def nearest (negative : Bool) (q : Rat) : Single :=
  if q = 0 then Floating.zero negative
  else
    let unit := (2 : Rat) ^ (floorLog2 q - 200)
    ofMagnitude negative ((nearestEven (q / unit) : Rat) * unit)

private def nearestSigned (q : Rat) : Single := nearest (q < 0) q.abs

/-! ## Angles -/

def sin (x : Single) : Single :=
  if !x.isFinite then nan
  else if x.isZero then x
  else nearestSigned (sinCos x.value).1

def cos (x : Single) : Single :=
  if !x.isFinite then nan else nearestSigned (sinCos x.value).2

def tan (x : Single) : Single :=
  if !x.isFinite then nan
  else if x.isZero then x
  else nearestSigned ((sinCos x.value).1 / (sinCos x.value).2)

def asin (x : Single) : Single :=
  if !x.isFinite || 1 < x.magnitude then nan
  else if x.isZero then x
  else nearest x.negative (asinOf x.magnitude)

def acos (x : Single) : Single :=
  if !x.isFinite || 1 < x.magnitude then nan
  else if x.value = 1 then Floating.zero false
  else if x.negative then nearest false (ofFixed pi / 2 + asinOf x.magnitude)
  else nearest false (ofFixed pi / 2 - asinOf x.magnitude)

def atan (x : Single) : Single :=
  if x.isNaN then nan
  else if x.isInfinite then nearest x.negative (ofFixed pi / 2)
  else if x.isZero then x
  else nearest x.negative (atanOf x.magnitude)

/-- The angle of the point `(x, y)`, with the sign of `y`. Points at infinity lie on the axes or on
the diagonals, and the sign of a zero tells the two sides of an axis apart. -/
def atan2 (y x : Single) : Single :=
  if y.isNaN || x.isNaN then nan
  else
    let sign := y.negative
    let turn (q : Rat) := nearest sign (ofFixed pi * q)
    if y.isInfinite then
      if x.isInfinite then turn (if x.negative then 3 / 4 else 1 / 4) else turn (1 / 2)
    else if x.isInfinite || y.isZero then
      if x.negative then turn 1 else Floating.zero sign
    else if x.isZero then turn (1 / 2)
    else
      let angle := atanOf (y.magnitude / x.magnitude)
      nearest sign (if x.negative then ofFixed pi - angle else angle)

/-! ## Exponentials and logarithms

An exponent past a few hundred overflows or vanishes whatever its last digits are, so it is decided
in front. -/

/-- `e ^ x` or another power, given the exponent of two and the exponent of `e`. -/
private def power (negative : Bool) (log2 : Rat) (exponent : Rat) : Single :=
  if 200 < log2 then infinity negative
  else if log2 < -200 then Floating.zero negative
  else nearest negative (expOf exponent)

def exp (x : Single) : Single :=
  if x.isNaN then nan
  else if x.isInfinite then (if x.negative then Floating.zero false else x)
  else power false (x.value * (3 / 2)) x.value

def exp2 (x : Single) : Single :=
  if x.isNaN then nan
  else if x.isInfinite then (if x.negative then Floating.zero false else x)
  else power false x.value (x.value * ofFixed ln2)

/-- The logarithm that is `scale` times the natural one. -/
private def logarithm (scale : Rat) (x : Single) : Single :=
  if x.isNaN then nan
  else if x.isZero then infinity true
  else if x.negative then nan
  else if x.isInfinite then x
  else nearestSigned (lnOf x.magnitude * scale)

def log (x : Single) : Single := logarithm 1 x

def log2 (x : Single) : Single := logarithm (1 / ofFixed ln2) x

def sinh (x : Single) : Single :=
  if x.isNaN then nan
  else if x.isInfinite || x.isZero then x
  else if 200 < x.magnitude then infinity x.negative
  else
    let e := expOf x.magnitude
    nearest x.negative ((e - 1 / e) / 2)

def cosh (x : Single) : Single :=
  if x.isNaN then nan
  else if x.isInfinite || 200 < x.magnitude then infinity false
  else
    let e := expOf x.magnitude
    nearest false ((e + 1 / e) / 2)

def tanh (x : Single) : Single :=
  if x.isNaN then nan
  else if x.isZero then x
  else if x.isInfinite || 100 < x.magnitude then unit x.negative
  else
    let e := expOf (2 * x.magnitude)
    nearest x.negative ((e - 1) / (e + 1))

/-! ## Powers -/

/-- Whether a finite number is an odd integer. -/
private def isOdd (x : Single) : Bool :=
  x.isFinite && x.magnitude.den == 1 && x.magnitude.num % 2 == 1

/-- `x ^ y`. The zeroth power and every power of one are one, whatever the other argument is. A
negative base has integral powers only, and its odd powers are negative. -/
def pow (x y : Single) : Single :=
  let size := x.magnitude
  if y.isZero || (x.isFinite && x.value = 1) then unit false
  else if x.isNaN || y.isNaN then nan
  else
    let sign := x.negative && isOdd y
    if x.isZero then (if y.negative then infinity sign else Floating.zero sign)
    else if x.isInfinite then (if y.negative then Floating.zero sign else infinity sign)
    else if y.isInfinite then
      if size = 1 then unit false
      else if (1 < size) != y.negative then infinity false
      else Floating.zero false
    else if x.negative && y.magnitude.den != 1 then nan
    else
      let exponent := y.value * lnOf size
      power sign (exponent * (3 / 2)) exponent

end ShaderAlgebra.Single
