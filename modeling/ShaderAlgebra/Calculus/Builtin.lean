import ShaderAlgebra.Calculus.Derivation
import ShaderAlgebra.Render.Expr

/-!
# Derivatives of the built-in functions

The rule of each built-in function that has one. A rule takes the arguments with their derivatives
and applies to the number of arguments it names: `atan` of two arguments has no rule.
-/

namespace ShaderAlgebra

/-- The derivative of a call, from its arguments. -/
abbrev DerivativeRule := Derivation → List Operand → Derived Expr

namespace DerivativeRule

open Derived

/-! ## Parts -/

def float (value : Single) : Expr := .ofFloat value

/-- A call of a built-in with the type of its argument. -/
def apply (builtin : Builtin) (u : Expr) : Expr := .call builtin.name [u] u.ty

def floatCall (builtin : Builtin) (arguments : List Expr) : Expr :=
  .call builtin.name arguments .float

/-- The only argument. -/
def only (builtin : Builtin) : List Operand → Derived Operand
  | [u] => pure u
  | _ => missingRule builtin

/-- The rule `f'(u) * du`. -/
def chain (builtin : Builtin) (outer : Expr → Derived Expr) : DerivativeRule := fun _ operands => do
  let u ← only builtin operands
  multiply (← outer u.expr) (← u.derivative)

/-- The rule `du / f(u)`. -/
def quotient (builtin : Builtin) (below : Expr → Derived Expr) : DerivativeRule :=
  fun _ operands => do
    let u ← only builtin operands
    divide (← u.derivative) (← below u.expr)

/-- `1 - u * u` -/
def oneMinusSquare (u : Expr) : Derived Expr := do
  subtract (float .one) (← multiply u u)

/-- `sqrt(1 - u * u)` -/
def unitRoot (u : Expr) : Derived Expr := do return apply .sqrt (← oneMinusSquare u)

/-! ## Powers -/

def inverseSqrt : DerivativeRule := fun _ operands => do
  let u ← only .inverseSqrt operands
  let scaled ← multiply (float (Floating.ofRat (-0.5))) (← u.derivative)
  divide (← multiply scaled (apply .inverseSqrt u.expr)) u.expr

/-- `v * pow(u, v - 1) * du + log(u) * pow(u, v) * dv`, without the terms that are zero. -/
def pow : DerivativeRule
  | d, [u, v] => do
    let power (exponent : Expr) : Expr := .call Builtin.pow.name [u.expr, exponent] u.expr.ty
    let byBase ← termIf (d.depends u.expr) do
      let lowered ← subtract v.expr (float .one)
      multiply (← multiply v.expr (power lowered)) (← u.derivative)
    let byExponent ← termIf (d.depends v.expr) do
      multiply (← multiply (apply .log u.expr) (power v.expr)) (← v.derivative)
    d.sum (byBase ++ byExponent) u.expr.ty
  | _, _ => missingRule .pow

/-! ## Piecewise functions -/

/-- The derivative of a function that is constant between its jumps. -/
def piecewiseConstant : DerivativeRule := fun d operands =>
  match operands.getLast? with
  | some value => d.zero value.expr.ty
  | none => missingRule .step

/-- `min` or `max`: the derivative of the argument that is taken, as `compare` decides. -/
def extremum (builtin : Builtin) (compare : Expr → Expr → Derived Expr) : DerivativeRule
  | _, [u, v] => do
    if !u.expr.ty.isScalar || !v.expr.ty.isScalar then
      throw (.unsupported (.nonScalarArguments builtin))
    select (← compare u.expr v.expr) (← u.derivative) (← v.derivative)
  | _, _ => missingRule builtin

def clamp : DerivativeRule
  | _, [u, low, high] => do
    if !u.expr.ty.isScalar then
      throw (.unsupported (.nonScalarArguments .clamp))
    let inside ← select (← greater u.expr high.expr) (← high.derivative) (← u.derivative)
    select (← less u.expr low.expr) (← low.derivative) inside
  | _, _ => missingRule .clamp

/-- `da * (1 - t) + db * t + (b - a) * dt`, without the terms that are zero. -/
def mix : DerivativeRule
  | d, [a, b, t] => do
    let byFirst ← termIf (d.depends a.expr) do
      multiply (← a.derivative) (← subtract (float .one) t.expr)
    let bySecond ← termIf (d.depends b.expr) do
      multiply (← b.derivative) t.expr
    let byWeight ← termIf (d.depends t.expr) do
      multiply (← subtract b.expr a.expr) (← t.derivative)
    d.sum (byFirst ++ bySecond ++ byWeight) a.expr.ty
  | _, _ => missingRule .mix

/-- `6 * t * (1 - t) * du / (b - a)` where `t` is how far `u` is from `a` to `b`. -/
def smoothStep : DerivativeRule
  | d, [a, b, u] => do
    if d.depends a.expr || d.depends b.expr then
      throw (.unsupported .movingEdges)
    let width ← subtract b.expr a.expr
    let scaled ← divide (← subtract u.expr a.expr) width
    let t := Expr.call Builtin.clamp.name [scaled, float .zero, float .one] scaled.ty
    let slope ← multiply (← multiply (float (Floating.ofInt 6)) t) (← subtract (float .one) t)
    divide (← multiply slope (← u.derivative)) width
  | _, _ => missingRule .smoothStep

/-! ## Vectors -/

/-- The product that the derivative of a dot product is a sum of. -/
def dotTerm (d : Derivation) (a b : Expr) : Derived Expr :=
  if d.isScalar then pure (floatCall .dot [a, b]) else multiply a b

def dot : DerivativeRule
  | d, [u, v] => do
    let byFirst ← termIf (d.depends u.expr) do dotTerm d (← u.derivative) v.expr
    let bySecond ← termIf (d.depends v.expr) do dotTerm d u.expr (← v.derivative)
    d.sum (byFirst ++ bySecond) .float
  | _, _ => missingRule .dot

/-- The length changes with the part of the change that is along the vector. -/
def lengthOf (d : Derivation) (u : Operand) : Derived Expr := do
  dotTerm d (apply .normalize u.expr) (← u.derivative)

def length : DerivativeRule := fun d operands => do lengthOf d (← only .length operands)

/-- The distance is the length of the difference. -/
def distance : DerivativeRule
  | d, [u, v] => do
    let difference ← subtract u.expr v.expr
    let derivative : Derived Expr := do subtract (← u.derivative) (← v.derivative)
    lengthOf d ⟨difference, derivative.mapError fun error => error.locate difference.text⟩
  | _, _ => missingRule .distance

def cross : DerivativeRule
  | d, [u, v] => do
    if !d.isScalar then
      throw (.unsupported (.mixingBuiltin .cross))
    let product (a b : Expr) : Expr := .call Builtin.cross.name [a, b] u.expr.ty
    let byFirst ← termIf (d.depends u.expr) do return product (← u.derivative) v.expr
    let bySecond ← termIf (d.depends v.expr) do return product u.expr (← v.derivative)
    d.sum (byFirst ++ bySecond) u.expr.ty
  | _, _ => missingRule .cross

/-- The part of the change that is across the vector, over its length. -/
def normalize : DerivativeRule := fun d operands => do
  let u ← only .normalize operands
  if !d.isScalar then
    throw (.unsupported (.mixingBuiltin .normalize))
  let direction := apply .normalize u.expr
  let du ← u.derivative
  let along := floatCall .dot [direction, du]
  let across ← subtract du (← multiply direction along)
  divide across (floatCall .length [u.expr])

/-! ## The table -/

/-- The rule of a built-in function. -/
def of? : Builtin → Option DerivativeRule
  | .sin => some <| chain .sin fun u => pure (apply .cos u)
  | .cos => some <| chain .cos fun u => negate (apply .sin u)
  | .tan => some <| quotient .tan fun u => multiply (apply .cos u) (apply .cos u)
  | .asin => some <| quotient .asin unitRoot
  | .acos => some fun d operands => do negate (← quotient .acos unitRoot d operands)
  | .atan => some <| quotient .atan fun u => do add (float .one) (← multiply u u)
  | .sinh => some <| chain .sinh fun u => pure (apply .cosh u)
  | .cosh => some <| chain .cosh fun u => pure (apply .sinh u)
  | .tanh => some <| chain .tanh fun u => oneMinusSquare (apply .tanh u)
  | .exp => some <| chain .exp fun u => pure (apply .exp u)
  | .exp2 => some <| chain .exp2 fun u => multiply (float .logTwo) (apply .exp2 u)
  | .log => some <| quotient .log pure
  | .log2 => some <| quotient .log2 fun u => multiply u (float .logTwo)
  | .sqrt => some <| quotient .sqrt fun u => multiply (float .two) (apply .sqrt u)
  | .inverseSqrt => some inverseSqrt
  | .pow => some pow
  | .abs => some <| chain .abs fun u => pure (apply .sign u)
  | .sign | .floor | .ceil | .round | .trunc | .step => some piecewiseConstant
  | .fract => some fun _ operands => do (← only .fract operands).derivative
  | .radians => some <| chain .radians fun _ => pure (float .radiansPerDegree)
  | .degrees => some <| chain .degrees fun _ => pure (float .degreesQuotient)
  | .min => some <| extremum .min less
  | .max => some <| extremum .max greater
  | .clamp => some clamp
  | .mix => some mix
  | .smoothStep => some smoothStep
  | .dot => some dot
  | .length => some length
  | .distance => some distance
  | .cross => some cross
  | .normalize => some normalize
  | _ => none

end DerivativeRule

namespace Builtin

def hasDerivative (builtin : Builtin) : Bool := (DerivativeRule.of? builtin).isSome

end Builtin

end ShaderAlgebra
