import ShaderAlgebra.Number.Floating

/-!
# Arithmetic of floating-point numbers

Every operation here does the exact operation on rationals and rounds once. What remains is the
algebra of the signs of zero, of the infinities and of NaN, which each definition lists in front.
-/

namespace ShaderAlgebra.Floating

variable {f : Format}

/-! ## Sign -/

def negate (x : Floating f) : Floating f := { x with negative := !x.negative }

def abs (x : Floating f) : Floating f := { x with negative := false }

/-- The number one with the given sign. -/
def unit (negative : Bool) : Floating f := ofMagnitude negative 1

/-! ## Sums -/

/-- The sum. Opposite infinities have none; a sum that is exactly zero is negative only if both
terms are. -/
def add (x y : Floating f) : Floating f :=
  if x.isNaN || y.isNaN then nan
  else if x.isInfinite then
    if y.isInfinite && x.negative != y.negative then nan else x
  else if y.isInfinite then y
  else
    let sum := x.value + y.value
    if sum = 0 then zero (x.negative && y.negative) else ofRat sum

def subtract (x y : Floating f) : Floating f := add x (negate y)

/-! ## Products and quotients -/

/-- The product, with the product of the signs. Zero times an infinity has none. -/
def multiply (x y : Floating f) : Floating f :=
  let sign := x.negative != y.negative
  if x.isNaN || y.isNaN then nan
  else if x.isInfinite || y.isInfinite then
    if x.isZero || y.isZero then nan else infinity sign
  else ofMagnitude sign (x.magnitude * y.magnitude)

/-- The quotient, with the product of the signs. A number over zero is infinite, and there is no
quotient of two zeros or of two infinities. -/
def divide (x y : Floating f) : Floating f :=
  let sign := x.negative != y.negative
  if x.isNaN || y.isNaN then nan
  else if x.isInfinite then
    if y.isInfinite then nan else infinity sign
  else if y.isInfinite then zero sign
  else if y.isZero then
    if x.isZero then nan else infinity sign
  else ofMagnitude sign (x.magnitude / y.magnitude)

instance : Neg (Floating f) := ⟨negate⟩

instance : Add (Floating f) := ⟨add⟩

instance : Sub (Floating f) := ⟨subtract⟩

instance : Mul (Floating f) := ⟨multiply⟩

instance : Div (Floating f) := ⟨divide⟩

/-! ## Integral parts

The result keeps the sign of the number, so a negative number that rounds to zero gives the
negative zero. Infinities and NaN are their own integral part. -/

/-- The number whose absolute value is the given integer, with the sign of `x`; `x` itself if it is
not finite. -/
private def integral (x : Floating f) (magnitude : Int) : Floating f :=
  if x.isFinite then ofMagnitude x.negative (magnitude : Rat) else x

def floor (x : Floating f) : Floating f :=
  integral x (if x.negative then x.magnitude.ceil else x.magnitude.floor)

def ceil (x : Floating f) : Floating f :=
  integral x (if x.negative then x.magnitude.floor else x.magnitude.ceil)

def trunc (x : Floating f) : Floating f := integral x x.magnitude.floor

/-- The nearest integer; a half goes away from zero. -/
def round (x : Floating f) : Floating f := integral x (x.magnitude + 1 / 2).floor

/-! ## Selection -/

/-- The lesser of two numbers. A NaN is passed over, and of two equal numbers the second is taken,
which tells the zeros apart. -/
def minNum (x y : Floating f) : Floating f :=
  if y.isNaN || less x y then x else y

/-- The greater of two numbers. A NaN is passed over, and of two equal numbers the second is taken,
which tells the zeros apart. -/
def maxNum (x y : Floating f) : Floating f :=
  if y.isNaN || less y x then x else y

/-- `x` held between `low` and `high`; NaN stays NaN. -/
def clamp (x low high : Floating f) : Floating f :=
  let raised := if less x low then low else x
  if less high raised then high else raised

/-! ## Square root -/

/-- The integer part of the square root, found bit by bit from the highest. -/
def sqrtNat (n : Nat) : Nat :=
  (List.range (n.log2 / 2 + 1)).foldr
    (fun bit root =>
      let raised := root + twoTo bit
      if raised * raised ≤ n then raised else root)
    0

/-- The square root of a positive rational to `bits` binary places. A root that does not end there
is taken half a place up, which keeps it on its own side of every shorter number. -/
def sqrtRat (bits : Nat) (q : Rat) : Rat :=
  let scaled := q * ((twoTo bits * twoTo bits : Nat) : Rat)
  let root := sqrtNat scaled.floor.toNat
  let exact := ((root * root : Nat) : Rat) = scaled
  ((if exact then (root : Rat) else (root : Rat) + 1 / 2)) / (twoTo bits : Rat)

/-- The square root. Zero is its own root, and no other negative number has one. -/
def sqrt (x : Floating f) : Floating f :=
  if x.isNaN then nan
  else if x.isZero then x
  else if x.negative then nan
  else if x.isInfinite then x
  else
    let places := f.fractionWidth + 3 + (f.leastUnit.natAbs + 1)
    ofMagnitude false (sqrtRat places x.magnitude)

end ShaderAlgebra.Floating
