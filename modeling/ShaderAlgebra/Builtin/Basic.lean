/-!
# Built-in functions

The functions that every shader may call, with the names they are called by.
-/

namespace ShaderAlgebra

inductive Builtin where
  | radians
  | degrees
  | sin
  | cos
  | tan
  | asin
  | acos
  | atan
  | sinh
  | cosh
  | tanh
  | pow
  | exp
  | log
  | exp2
  | log2
  | sqrt
  | inverseSqrt
  | abs
  | sign
  | floor
  | ceil
  | round
  | trunc
  | fract
  | mod
  | min
  | max
  | clamp
  | mix
  | step
  | smoothStep
  | length
  | distance
  | dot
  | cross
  | normalize
  | faceForward
  | reflect
  | refract
  | matrixCompMult
  | transpose
  | inverse
  | determinant
deriving DecidableEq, Repr

namespace Builtin

/-- Every built-in function, in order of declaration. -/
def all : List Builtin :=
  [.radians, .degrees, .sin, .cos, .tan, .asin, .acos, .atan, .sinh, .cosh, .tanh, .pow, .exp,
   .log, .exp2, .log2, .sqrt, .inverseSqrt, .abs, .sign, .floor, .ceil, .round, .trunc, .fract,
   .mod, .min, .max, .clamp, .mix, .step, .smoothStep, .length, .distance, .dot, .cross,
   .normalize, .faceForward, .reflect, .refract, .matrixCompMult, .transpose, .inverse,
   .determinant]

def name : Builtin → String
  | .radians => "radians"
  | .degrees => "degrees"
  | .sin => "sin"
  | .cos => "cos"
  | .tan => "tan"
  | .asin => "asin"
  | .acos => "acos"
  | .atan => "atan"
  | .sinh => "sinh"
  | .cosh => "cosh"
  | .tanh => "tanh"
  | .pow => "pow"
  | .exp => "exp"
  | .log => "log"
  | .exp2 => "exp2"
  | .log2 => "log2"
  | .sqrt => "sqrt"
  | .inverseSqrt => "inversesqrt"
  | .abs => "abs"
  | .sign => "sign"
  | .floor => "floor"
  | .ceil => "ceil"
  | .round => "round"
  | .trunc => "trunc"
  | .fract => "fract"
  | .mod => "mod"
  | .min => "min"
  | .max => "max"
  | .clamp => "clamp"
  | .mix => "mix"
  | .step => "step"
  | .smoothStep => "smoothstep"
  | .length => "length"
  | .distance => "distance"
  | .dot => "dot"
  | .cross => "cross"
  | .normalize => "normalize"
  | .faceForward => "faceforward"
  | .reflect => "reflect"
  | .refract => "refract"
  | .matrixCompMult => "matrixCompMult"
  | .transpose => "transpose"
  | .inverse => "inverse"
  | .determinant => "determinant"

/-- The built-in function with the given name. -/
def ofName? (name : String) : Option Builtin := all.find? fun builtin => builtin.name == name

end Builtin

end ShaderAlgebra
