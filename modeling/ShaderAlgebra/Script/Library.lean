import ShaderAlgebra.Builtin.Basic

/-!
# Built-in functions in scripts

How each built-in function of shaders is called in a script, for scalar, vector and matrix operands.
-/

namespace ShaderAlgebra.Script

/-- A form of call. -/
inductive LibraryCall where
  /-- A plain call of a function. -/
  | function (path : String)
  /-- A function of scalars, applied to each component. -/
  | map (path : String)
  /-- A vector operation that writes its result to a new vector. -/
  | vectorOut (name : String)
  /-- A vector operation whose result is a number. -/
  | vectorValue (name : String)
  /-- A matrix operation that writes its result to a new matrix. -/
  | matrixOut (name : String)
  /-- A matrix operation whose result is a number. -/
  | matrixValue (name : String)
deriving DecidableEq, Repr

/-- The calls of a built-in function, by the shape of its operands. -/
structure Library where
  scalar : Option LibraryCall
  vector : Option LibraryCall
  matrix : Option LibraryCall
deriving DecidableEq, Repr

namespace Library

/-- A function of scalars and another call for vectors. -/
def ofScalar (path : String) (vector : LibraryCall) : Library :=
  ⟨some (.function path), some vector, none⟩

/-- One function of scalars, for vectors applied to each component. -/
def componentWise (path : String) : Library := ofScalar path (.map path)

def matrixOnly (call : LibraryCall) : Library := ⟨none, none, some call⟩

/-- The calls of each built-in function. -/
def of : Builtin → Library
  | .radians => componentWise "glsl.radians"
  | .degrees => componentWise "glsl.degrees"
  | .sin => componentWise "Math.sin"
  | .cos => componentWise "Math.cos"
  | .tan => componentWise "Math.tan"
  | .asin => componentWise "Math.asin"
  | .acos => componentWise "Math.acos"
  | .atan => componentWise "glsl.atan"
  | .sinh => componentWise "Math.sinh"
  | .cosh => componentWise "Math.cosh"
  | .tanh => componentWise "Math.tanh"
  | .pow => componentWise "Math.pow"
  | .exp => componentWise "Math.exp"
  | .log => componentWise "Math.log"
  | .exp2 => componentWise "glsl.exp2"
  | .log2 => componentWise "Math.log2"
  | .sqrt => componentWise "Math.sqrt"
  | .inverseSqrt => componentWise "glsl.inversesqrt"
  | .abs => componentWise "Math.abs"
  | .sign => componentWise "Math.sign"
  | .floor => ofScalar "Math.floor" (.vectorOut "floor")
  | .ceil => ofScalar "Math.ceil" (.vectorOut "ceil")
  | .round => ofScalar "Math.round" (.vectorOut "round")
  | .trunc => componentWise "Math.trunc"
  | .fract => componentWise "glsl.fract"
  | .mod => componentWise "glsl.mod"
  | .min => ofScalar "Math.min" (.vectorOut "min")
  | .max => ofScalar "Math.max" (.vectorOut "max")
  | .clamp => componentWise "glsl.clamp"
  | .mix => componentWise "glsl.mix"
  | .step => componentWise "glsl.step"
  | .smoothStep => componentWise "glsl.smoothstep"
  | .length => ofScalar "Math.abs" (.vectorValue "length")
  | .distance => ofScalar "glsl.distance" (.vectorValue "distance")
  | .dot => ofScalar "glsl.mul" (.vectorValue "dot")
  | .cross => ⟨none, some (.vectorOut "cross"), none⟩
  | .normalize => ofScalar "Math.sign" (.vectorOut "normalize")
  | .faceForward => ofScalar "glsl.faceforward" (.function "glsl.faceforward")
  | .reflect => ofScalar "glsl.reflect" (.function "glsl.reflect")
  | .refract => ofScalar "glsl.refract" (.function "glsl.refract")
  | .matrixCompMult => matrixOnly (.map "glsl.mul")
  | .transpose => matrixOnly (.matrixOut "transpose")
  | .inverse => matrixOnly (.matrixOut "invert")
  | .determinant => matrixOnly (.matrixValue "determinant")

end Library

end ShaderAlgebra.Script
