import ShaderAlgebra.Shader

/-!
# Lowering errors

Why a shader has no form as a script, and at which node.
-/

namespace ShaderAlgebra

/-- A construct that scripts do not have. -/
inductive Construct where
  | badNode (error : NodeError)
  /-- A comparison of arrays or structs. -/
  | aggregateComparison
  | operator (op : BinaryOp)
  | operatorOnOperands (op : BinaryOp)
  /-- An operator between a matrix and a scalar. -/
  | matrixScalar (op : BinaryOp)
  | matrixDivision
  | constructor (ty : Ty)
  | swizzleWrite
  | columnStorage
  | assignmentTarget
  | writtenParameter (passing : Passing)
  | overloadedFunction
deriving DecidableEq, Repr

inductive LoweringFault where
  /-- The built-in function has no form for operands of that shape. -/
  | unmappedBuiltin (builtin : Builtin)
  /-- No value of a script stands for values of that type. -/
  | unrepresentableType (ty : Ty)
  | unsupported (construct : Construct)
deriving DecidableEq, Repr

structure LoweringError where
  fault : LoweringFault
  node : String
deriving DecidableEq, Repr

namespace Construct

def message : Construct → String
  | .badNode error => error.message
  | .aggregateComparison => "comparison of arrays or structs"
  | .operator op => "operator `" ++ op.symbol ++ "`"
  | .operatorOnOperands op => "operator `" ++ op.symbol ++ "` on these operands"
  | .matrixScalar op => "matrix `" ++ op.symbol ++ "` scalar"
  | .matrixDivision => "component-wise matrix division"
  | .constructor ty => "`" ++ ty.text ++ "` constructor"
  | .swizzleWrite => "write through a multi-component swizzle"
  | .columnStorage => "matrix column used as storage"
  | .assignmentTarget => "assignment target"
  | .writtenParameter passing => "`" ++ passing.text ++ "` parameter"
  | .overloadedFunction => "overloaded function"

end Construct

namespace LoweringFault

def message : LoweringFault → String
  | .unmappedBuiltin builtin => "no runtime mapping for `" ++ builtin.name ++ "`"
  | .unrepresentableType ty => "type `" ++ ty.text ++ "` has no runtime representation"
  | .unsupported construct => "unsupported construct: " ++ construct.message

end LoweringFault

namespace LoweringError

def message (error : LoweringError) : String := error.fault.message ++ " at `" ++ error.node ++ "`"

end LoweringError

/-- A lowered tree, or why there is none. -/
abbrev Lowered (α : Type) := Except LoweringError α

namespace Lowered

def unsupported {α : Type} (construct : Construct) (node : String) : Lowered α :=
  .error ⟨.unsupported construct, node⟩

def unrepresentable {α : Type} (ty : Ty) (node : String) : Lowered α :=
  .error ⟨.unrepresentableType ty, node⟩

end Lowered

end ShaderAlgebra
