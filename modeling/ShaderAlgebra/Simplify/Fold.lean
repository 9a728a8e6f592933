import ShaderAlgebra.Builtin.Eval
import ShaderAlgebra.Expr.Build

/-!
# Constant folding

A node whose operands are all literals is replaced by its value. A float value is kept only if it is
finite, so folding never puts an infinity or a NaN into a tree.
-/

namespace ShaderAlgebra.Expr

/-- The value of a call at literal arguments: a scalar conversion, or a built-in function. -/
def callValue? (function : String) (arguments : List Literal) (ty : Ty) : Option Literal :=
  match Ty.ofName? function with
  | some (.scalar kind) =>
    match arguments with
    | [argument] => argument.convert? kind
    | _ => none
  | some _ => none
  | none => do (← Builtin.ofName? function).onLiterals? arguments ty

/-- The value of a node whose operands are literals. -/
def literalValue? : Expr → Option Literal
  | .unary op operand _ => do Literal.unary? op (← operand.literal?)
  | .binary op left right _ => do Literal.binary? op (← left.literal?) (← right.literal?)
  | .call function arguments ty => do
    callValue? function (← arguments.mapM literal?) ty
  | _ => none

/-- The literal that a node folds to. -/
def fold? (e : Expr) : Option Expr := (e.literalValue?.filter Literal.isFinite).map ofLiteral

end ShaderAlgebra.Expr
