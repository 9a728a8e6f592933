import ShaderAlgebra.Operator
import ShaderAlgebra.Ty.Name

/-!
# Why a node cannot be built

The operands of an operator, a field access, an index or a conditional determine the type of the
node, or else one of these causes.
-/

namespace ShaderAlgebra

inductive NodeError where
  /-- The operand types do not fit the binary operator. -/
  | binaryMismatch (op : BinaryOp) (left right : Ty)
  /-- The operand type does not fit the unary operator. -/
  | unaryMismatch (op : UnaryOp) (operand : Ty)
  /-- The selector mixes letter sets, has a wrong length, or selects a missing component. -/
  | invalidSwizzle (selector : String)
  /-- The struct has no such member, or the type has no members. -/
  | unknownField (ty : Ty) (field : String)
  /-- The type has no elements. -/
  | notIndexable (ty : Ty)
  /-- The branches of a conditional have different types. -/
  | branchMismatch (accept reject : Ty)
deriving DecidableEq, Repr

namespace NodeError

def message : NodeError → String
  | .binaryMismatch op left right =>
    "operator `" ++ op.symbol ++ "` is not defined for `" ++ left.text ++ "` and `" ++ right.text
      ++ "`"
  | .unaryMismatch op operand =>
    "operator `" ++ op.symbol ++ "` is not defined for `" ++ operand.text ++ "`"
  | .invalidSwizzle selector => "invalid swizzle `." ++ selector ++ "`"
  | .unknownField ty field => "`" ++ ty.text ++ "` has no field `" ++ field ++ "`"
  | .notIndexable ty => "`" ++ ty.text ++ "` cannot be indexed"
  | .branchMismatch accept reject =>
    "conditional branches differ: `" ++ accept.text ++ "` and `" ++ reject.text ++ "`"

end NodeError

end ShaderAlgebra
