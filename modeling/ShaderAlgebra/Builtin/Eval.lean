import ShaderAlgebra.Builtin.Basic
import ShaderAlgebra.Literal.Eval
import ShaderAlgebra.Number.Constants
import ShaderAlgebra.Number.Elementary

/-!
# Built-in functions on numbers

The value of a built-in function at scalar arguments, step by step in binary32 arithmetic as the
function is defined for shaders. A built-in function that is not scalar, a wrong number of arguments
and an empty interval have none.
-/

namespace ShaderAlgebra.Builtin

/-- `eta * i - (eta * d + sqrt k) * n`, or zero where the ray is reflected totally. -/
def refracted (i n eta : Single) : Single :=
  let d := n * i
  let k := Single.one - eta * eta * (Single.one - d * d)
  if k.less Single.zero then Single.zero else eta * i - (eta * d + k.sqrt) * n

/-- `t * t * (3 - 2 * t)` for the part `t` of the way from one edge to the other. -/
def smoothed (low high x : Single) : Single :=
  let t := ((x - low) / (high - low)).clamp Single.zero Single.one
  t * t * (Single.three - Single.two * t)

/-- The sign of a number as a number; the sign of either zero is the positive zero. -/
def signOf (a : Single) : Single :=
  if a.isNaN then Floating.nan else if a.isZero then Single.zero else Floating.unit a.negative

def onSingles? : Builtin → List Single → Option Single
  | .radians, [a] => some (a * Single.radiansPerDegree)
  | .degrees, [a] => some (a * Single.degreesPerRadian)
  | .sin, [a] => some (Single.sin a)
  | .cos, [a] => some (Single.cos a)
  | .tan, [a] => some (Single.tan a)
  | .asin, [a] => some (Single.asin a)
  | .acos, [a] => some (Single.acos a)
  | .atan, [a] => some (Single.atan a)
  | .atan, [y, x] => some (Single.atan2 y x)
  | .sinh, [a] => some (Single.sinh a)
  | .cosh, [a] => some (Single.cosh a)
  | .tanh, [a] => some (Single.tanh a)
  | .pow, [a, b] => some (Single.pow a b)
  | .exp, [a] => some (Single.exp a)
  | .log, [a] => some (Single.log a)
  | .exp2, [a] => some (Single.exp2 a)
  | .log2, [a] => some (Single.log2 a)
  | .sqrt, [a] => some a.sqrt
  | .inverseSqrt, [a] => some (Single.one / a.sqrt)
  | .abs, [a] | .length, [a] => some a.abs
  | .sign, [a] => some (signOf a)
  | .floor, [a] => some a.floor
  | .ceil, [a] => some a.ceil
  | .round, [a] => some a.round
  | .trunc, [a] => some a.trunc
  | .fract, [a] => some (a - a.floor)
  | .mod, [a, b] => some (a - b * (a / b).floor)
  | .min, [a, b] => some (a.minNum b)
  | .max, [a, b] => some (a.maxNum b)
  | .clamp, [x, low, high] => if low.lessEqual high then some (x.clamp low high) else none
  | .mix, [a, b, t] => some (a * (Single.one - t) + b * t)
  | .step, [edge, x] => some (if x.less edge then Single.zero else Single.one)
  | .smoothStep, [low, high, x] => if low.equal high then none else some (smoothed low high x)
  | .distance, [a, b] => some (a - b).abs
  | .dot, [a, b] => some (a * b)
  | .normalize, [a] => some (a / a.abs)
  | .faceForward, [n, i, reference] => some (if (reference * i).less Single.zero then n else -n)
  | .reflect, [i, n] => some (i - Single.two * n * i * n)
  | .refract, [i, n, eta] => some (refracted i n eta)
  | _, _ => none

def onInts? : Builtin → List Int32 → Option Int32
  | .abs, [a] => int32? a.toInt.natAbs
  | .sign, [a] => some (if a.toInt < 0 then -1 else if a.toInt = 0 then 0 else 1)
  | .min, [a, b] => some (if b.toInt < a.toInt then b else a)
  | .max, [a, b] => some (if a.toInt < b.toInt then b else a)
  | .clamp, [x, low, high] =>
    if high.toInt < low.toInt then none
    else some (if x.toInt < low.toInt then low else if high.toInt < x.toInt then high else x)
  | _, _ => none

/-- The value of a call at literal arguments: a float from numbers, or an integer from integers, as
the type of the call says. -/
def onLiterals? (builtin : Builtin) (arguments : List Literal) (ty : Ty) : Option Literal :=
  match ty with
  | .scalar .float => do
    let value ← builtin.onSingles? (← arguments.mapM Literal.toSingle?)
    return .float value
  | .scalar .int => do
    let value ← builtin.onInts? (← arguments.mapM fun
      | .int value => some value
      | _ => none)
    return .int value
  | _ => none

end ShaderAlgebra.Builtin
