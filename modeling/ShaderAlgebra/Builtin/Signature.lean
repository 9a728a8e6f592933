import ShaderAlgebra.Builtin.Basic
import ShaderAlgebra.Typing.Error

/-!
# Signatures of the built-in functions

Most built-in functions are generic: they take `float` or a float vector, the same for all their
generic parameters. A call binds the generic type from one argument and then fits the others to it.
Functions marked integral also work on `int` and `ivec`, if every generic argument is of that kind;
otherwise integers become floats.
-/

namespace ShaderAlgebra

/-- What a parameter accepts. -/
inductive Pattern where
  /-- The generic type of the call. -/
  | generic
  /-- The generic type or a scalar of its kind. -/
  | genericOrScalar
  | float
  | vec3
  /-- A matrix, the same for all such parameters. -/
  | matrix
  | squareMatrix
deriving DecidableEq, Repr

/-- What a call gives. -/
inductive ResultPattern where
  | generic
  | float
  | vec3
  /-- The type of the matrix argument. -/
  | matrix
  /-- The type of the matrix argument with columns and rows exchanged. -/
  | transposed
deriving DecidableEq, Repr

/-- One form of a built-in function. -/
structure Signature where
  parameters : List Pattern
  result : ResultPattern
  integral : Bool
deriving DecidableEq, Repr

namespace Signature

/-- The argument that binds the generic type: the first generic one, else the first one that may
also be a scalar. -/
def binder? (pairs : List (Pattern × Ty)) : Option Ty :=
  ((pairs.find? fun pair => pair.1 == .generic).or
    (pairs.find? fun pair => pair.1 == .genericOrScalar)).map (·.2)

/-- Whether every generic argument has integer components. -/
def areIntegral (pairs : List (Pattern × Ty)) : Bool :=
  pairs.all fun (pattern, ty) =>
    match pattern with
    | .generic | .genericOrScalar => ty.kind? == some .int
    | _ => true

/-- The generic type that an argument binds: its shape, with integer components if the call keeps
them. Only numeric scalars and vectors bind one. -/
def bind? (keepsIntegers : Bool) : Ty → Option Ty
  | .scalar .int => some (if keepsIntegers then Ty.int else Ty.float)
  | .scalar .float => some Ty.float
  | .vector size .int => some (.vector size (if keepsIntegers then .int else .float))
  | .vector size .float => some (Ty.vec size)
  | _ => none

/-- Whether an argument fits a pattern, once the generic type and the matrix type are bound. -/
def fits (generic matrix : Option Ty) (pattern : Pattern) (argument : Ty) : Bool :=
  match pattern with
  | .generic => generic.any argument.convertsTo
  | .genericOrScalar =>
    generic.any fun g =>
      argument.convertsTo g || g.kind?.any fun kind => argument.convertsTo (.scalar kind)
  | .float => argument.convertsTo Ty.float
  | .vec3 => argument.convertsTo (Ty.vec .three)
  | .matrix => argument.isMatrix && matrix == some argument
  | .squareMatrix =>
    match argument with
    | .matrix columns rows => columns == rows
    | _ => false

/-- The type of the result, once the generic type and the matrix type are bound. -/
def resultType? (result : ResultPattern) (generic matrix : Option Ty) : Option Ty :=
  match result with
  | .generic => generic
  | .float => some Ty.float
  | .vec3 => some (Ty.vec .three)
  | .matrix => matrix
  | .transposed =>
    match matrix with
    | some (.matrix columns rows) => some (.matrix rows columns)
    | _ => none

/-- The type of a call with arguments of the given types, if they fit. -/
def resolve? (signature : Signature) (arguments : List Ty) : Option Ty :=
  if arguments.length ≠ signature.parameters.length then none
  else
    let pairs := signature.parameters.zip arguments
    let matrix := (pairs.find? fun pair => pair.1 == .matrix || pair.1 == .squareMatrix).map (·.2)
    let resolveWith (generic : Option Ty) : Option Ty :=
      if pairs.all fun (pattern, argument) => fits generic matrix pattern argument then
        resultType? signature.result generic matrix
      else none
    match binder? pairs with
    | none => resolveWith none
    | some binder =>
      match bind? (signature.integral && areIntegral pairs) binder with
      | none => none
      | some generic => resolveWith (some generic)

end Signature

namespace Builtin

/-- A form on floats only. -/
def onFloats (parameters : List Pattern) (result : ResultPattern) : List Signature :=
  [⟨parameters, result, false⟩]

/-- A generic form that also keeps integers. -/
def onNumbers (parameters : List Pattern) : List Signature := [⟨parameters, .generic, true⟩]

/-- The forms of a built-in function. -/
def signatures : Builtin → List Signature
  | .radians | .degrees | .sin | .cos | .tan | .asin | .acos | .sinh | .cosh | .tanh | .exp | .log
  | .exp2 | .log2 | .sqrt | .inverseSqrt | .floor | .ceil | .fract | .round | .trunc
  | .normalize => onFloats [.generic] .generic
  | .atan => onFloats [.generic] .generic ++ onFloats [.generic, .generic] .generic
  | .abs | .sign => onNumbers [.generic]
  | .pow | .reflect => onFloats [.generic, .generic] .generic
  | .mod => onFloats [.generic, .genericOrScalar] .generic
  | .min | .max => onNumbers [.generic, .genericOrScalar]
  | .clamp => onNumbers [.generic, .genericOrScalar, .genericOrScalar]
  | .mix => onFloats [.generic, .generic, .genericOrScalar] .generic
  | .step => onFloats [.genericOrScalar, .generic] .generic
  | .smoothStep => onFloats [.genericOrScalar, .genericOrScalar, .generic] .generic
  | .length => onFloats [.generic] .float
  | .distance | .dot => onFloats [.generic, .generic] .float
  | .cross => onFloats [.vec3, .vec3] .vec3
  | .refract => onFloats [.generic, .generic, .float] .generic
  | .faceForward => onFloats [.generic, .generic, .generic] .generic
  | .matrixCompMult => onFloats [.matrix, .matrix] .matrix
  | .transpose => onFloats [.matrix] .transposed
  | .inverse => onFloats [.squareMatrix] .matrix
  | .determinant => onFloats [.squareMatrix] .float

/-- The type of a call: that of the first form that takes the arguments. -/
def resolve (builtin : Builtin) (arguments : List Ty) : Except TypeFault Ty :=
  match builtin.signatures.findSome? fun signature => signature.resolve? arguments with
  | some ty => .ok ty
  | none =>
    if builtin.signatures.all fun signature => signature.parameters.length ≠ arguments.length then
      .error (.arityMismatch builtin.name arguments.length)
    else .error (.noOverload builtin.name arguments)

end Builtin

end ShaderAlgebra
