import ShaderAlgebra.Expr.Build
import ShaderAlgebra.Literal.Eval
import ShaderAlgebra.Number.Constants

/-!
# Algebraic identities

Neutral elements are removed and signs are collected. Zero and one are recognised in literals and in
constructors filled with one literal, so `v * vec3(1.0)` and `m * mat3(1.0)` reduce like `x * 1.0`.

Each form of node has a list of candidates; the first that has the type of the node replaces it. So
`vec3(1.0) * m`, whose value is not `m`, is left alone.
-/

namespace ShaderAlgebra.Expr

/-- The negation of an expression, if its type has one. -/
def negation? (e : Expr) : Option Expr := (unaryOf .negate e).toOption

/-- Two expressions under an operator, if their types allow it. -/
def combined? (op : BinaryOp) (left right : Expr) : Option Expr := (binaryOf op left right).toOption

def isMinusOne (e : Expr) : Bool :=
  (e.literal?.bind Literal.toDouble?).any fun value => value.equal (Floating.unit true)

/-- The `y` of a negation `-y` or of a negative literal. -/
def negated? : Expr → Option Expr
  | .unary .negate operand _ => some operand
  | .literal (.float value) _ =>
    if value.less Single.zero then some (ofFloat (-value)) else none
  | .literal (.int value) _ =>
    if value.toInt < 0 then (int32? (-value.toInt)).map ofInt else none
  | _ => none

/-- A candidate that applies under a condition. -/
def provided (condition : Bool) (candidate : Option Expr) : Option Expr :=
  if condition then candidate else none

/-- What a sum, difference, product or quotient of the given type may be replaced by. -/
def binaryCandidates (op : BinaryOp) (left right : Expr) (ty : Ty) : List (Option Expr) :=
  match op with
  | .add =>
    [provided right.isZero (some left),
     provided left.isZero (some right),
     right.negated?.bind (combined? .subtract left),
     left.negated?.bind (combined? .subtract right)]
  | .subtract =>
    [provided right.isZero (some left),
     provided left.isZero right.negation?,
     right.negated?.bind (combined? .add left)]
  | .multiply =>
    [provided right.isOne (some left),
     provided left.isOne (some right),
     provided (left.isZero || right.isZero) (zero? ty),
     provided left.isMinusOne right.negation?,
     provided right.isMinusOne left.negation?,
     match left, right with
     | .unary .negate a _, .unary .negate b _ => combined? .multiply a b
     | _, _ => none]
  | .divide => [provided right.isOne (some left)]
  | _ => []

/-- What a power of the given type may be replaced by. -/
def powerCandidate (base exponent : Expr) (ty : Ty) : Option Expr :=
  if exponent.isOne then some base else provided exponent.isZero (one? ty)

/-- What a node may be replaced by, in order of preference. -/
def identityCandidates : Expr → List (Option Expr)
  | .binary op left right ty => binaryCandidates op left right ty
  | .unary .negate (.unary .negate operand _) _ => [some operand]
  | .unary .not (.unary .not operand _) _ => [some operand]
  | .call function [base, exponent] ty =>
    if Builtin.ofName? function = some .pow then [powerCandidate base exponent ty] else []
  | _ => []

/-- The first candidate with the type of the node. -/
def identity? (e : Expr) : Option Expr :=
  e.identityCandidates.findSome? fun candidate => candidate.filter fun c => c.ty = e.ty

end ShaderAlgebra.Expr
