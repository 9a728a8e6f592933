import ShaderAlgebra.Shader

/-!
# Differentiation errors

Why a function has no derivative here, and at which node. An error that is raised below a node and
does not name a place takes the innermost node that has a text (`DiffError.locate`).
-/

namespace ShaderAlgebra

/-- What has no derivative in this calculus. -/
inductive Unsupported where
  /-- The variable is a parameter that the function writes to. -/
  | writtenParameter (passing : Passing)
  /-- The derivative would be a Jacobian, or the value is no number. -/
  | jacobian (value argument : Ty)
  | dynamicBranch
  | loop
  | dynamicConditional
  | unaryOperator (op : UnaryOp)
  | binaryOperator (op : BinaryOp)
  | assignment
  | matrixProduct
  | memberAccess
  /-- A swizzle that moves components while the variable is a vector. -/
  | mixingSwizzle
  | dynamicIndex
  | outsideComponent
  | unknownCall (function : String)
  | constructorArity
  | constructor (ty argument : Ty)
  | overloadedFunction
  /-- The derivative function that the chain rule needs does not exist. -/
  | missingDerivative (name : String)
  | nonScalarArguments (builtin : Builtin)
  | movingEdges
  /-- A built-in that mixes components while the variable is a vector. -/
  | mixingBuiltin (builtin : Builtin)
  | badNode (error : NodeError)
deriving DecidableEq, Repr

/-- Why a body does not reduce to one returned expression. -/
inductive NotSimple where
  | statement
  | readBeforeAssigned (name : String)
  | missingReturn
deriving DecidableEq, Repr

inductive DiffFault where
  | unsupported (what : Unsupported)
  /-- A built-in that has no derivative rule, or none for that many arguments. -/
  | missingRule (builtin : Builtin)
  | notSimple (reason : NotSimple)
  | unknownParameter (name : String)
deriving DecidableEq, Repr

/-- A fault and the text of the node it is at, empty as long as that is not known. -/
structure DiffError where
  fault : DiffFault
  node : String
deriving DecidableEq, Repr

namespace Unsupported

def message : Unsupported → String
  | .writtenParameter passing => "derivative with respect to `" ++ passing.text ++ "` parameter"
  | .jacobian value argument =>
    "derivative of `" ++ value.text ++ "` with respect to `" ++ argument.text ++ "`"
  | .dynamicBranch => "branch on a non-constant condition"
  | .loop => "loops"
  | .dynamicConditional => "conditional on a non-constant condition"
  | .unaryOperator op => "operator `" ++ op.symbol ++ "`"
  | .binaryOperator op => "operator `" ++ op.symbol ++ "`"
  | .assignment => "assignment"
  | .matrixProduct => "matrix product with respect to a vector"
  | .memberAccess => "struct member access"
  | .mixingSwizzle => "swizzle that mixes components"
  | .dynamicIndex => "dynamic or non-vector indexing"
  | .outsideComponent => "component outside the variable"
  | .unknownCall function => "call to `" ++ function ++ "`"
  | .constructorArity => "constructor arity"
  | .constructor ty argument =>
    "`" ++ ty.text ++ "` constructor with respect to `" ++ argument.text ++ "`"
  | .overloadedFunction => "overloaded user function"
  | .missingDerivative name => "`" ++ name ++ "` could not be derived"
  | .nonScalarArguments builtin => "`" ++ builtin.name ++ "` of non-scalar arguments"
  | .movingEdges => "`smoothstep` with variable edges"
  | .mixingBuiltin builtin => "`" ++ builtin.name ++ "` with respect to a vector"
  | .badNode error => error.message

end Unsupported

namespace NotSimple

def message : NotSimple → String
  | .statement => "statement cannot be inlined"
  | .readBeforeAssigned name => "`" ++ name ++ "` is read before it is assigned"
  | .missingReturn => "missing return statement"

end NotSimple

namespace DiffFault

def message : DiffFault → String
  | .unsupported what => "unsupported: " ++ what.message
  | .missingRule builtin => "no derivative rule for `" ++ builtin.name ++ "`"
  | .notSimple reason => "not a simple function: " ++ reason.message
  | .unknownParameter name => "`" ++ name ++ "` is not a parameter"

end DiffFault

namespace DiffError

/-- A construct without a derivative, at a place that is still to be found. -/
def unsupported (what : Unsupported) : DiffError := ⟨.unsupported what, ""⟩

/-- A node whose parts do not fit together. -/
def ofNode (error : NodeError) : DiffError := unsupported (.badNode error)

/-- Names the place, if it is still to be found. -/
def locate (node : String) (error : DiffError) : DiffError :=
  if error.node.isEmpty then { error with node := node } else error

def message (error : DiffError) : String := error.fault.message ++ " at `" ++ error.node ++ "`"

end DiffError

end ShaderAlgebra
