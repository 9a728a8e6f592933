/-!
# Operators

The unary and binary operators of shader expressions, with their spelling.
-/

namespace ShaderAlgebra

inductive UnaryOp where
  | negate
  | not
deriving DecidableEq, Repr

inductive BinaryOp where
  | add
  | subtract
  | multiply
  | divide
  | modulo
  | less
  | lessEqual
  | greater
  | greaterEqual
  | equal
  | notEqual
  | logicalAnd
  | logicalOr
deriving DecidableEq, Repr

namespace UnaryOp

def symbol : UnaryOp → String
  | .negate => "-"
  | .not => "!"

end UnaryOp

namespace BinaryOp

/-- Every binary operator, in order of declaration. -/
def all : List BinaryOp :=
  [.add, .subtract, .multiply, .divide, .modulo, .less, .lessEqual, .greater, .greaterEqual,
   .equal, .notEqual, .logicalAnd, .logicalOr]

def symbol : BinaryOp → String
  | .add => "+"
  | .subtract => "-"
  | .multiply => "*"
  | .divide => "/"
  | .modulo => "%"
  | .less => "<"
  | .lessEqual => "<="
  | .greater => ">"
  | .greaterEqual => ">="
  | .equal => "=="
  | .notEqual => "!="
  | .logicalAnd => "&&"
  | .logicalOr => "||"

/-- Whether the operator compares two values. -/
def isComparison : BinaryOp → Bool
  | .less | .lessEqual | .greater | .greaterEqual | .equal | .notEqual => true
  | _ => false

/-- Whether the operator may stand in a compound assignment such as `+=`. -/
def isCompoundAssignable : BinaryOp → Bool
  | .add | .subtract | .multiply | .divide | .modulo => true
  | _ => false

end BinaryOp

end ShaderAlgebra
