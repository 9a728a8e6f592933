import ShaderAlgebra.NodeError

/-!
# Types of operations

The type of the result of an operator, from the types of its operands: arithmetic is component-wise
with a scalar spread over the components, except that a product with a matrix is the product of
linear algebra. Equality compares whole values and gives one `bool`.
-/

namespace ShaderAlgebra.Ty

/-- A matrix beside a numeric scalar. -/
def scaledMatrix? : Ty → Ty → Option Ty
  | .matrix c r, .scalar kind => if kind.isNumeric then some (.matrix c r) else none
  | .scalar kind, .matrix c r => if kind.isNumeric then some (.matrix c r) else none
  | _, _ => none

/-- Component by component, with a scalar spread over the other operand. -/
def componentWise? : Ty → Ty → Option Ty
  | .scalar a, .scalar b => (a.unify? b).map .scalar
  | .scalar a, .vector size b => (a.unify? b).map (.vector size)
  | .vector size a, .scalar b => (b.unify? a).map (.vector size)
  | .vector m a, .vector n b => if m = n then (a.unify? b).map (.vector m) else none
  | .matrix c r, .matrix d s => if c = d ∧ r = s then some (.matrix c r) else none
  | left, right => scaledMatrix? left right

/-- The product of linear algebra, where at least one operand is a matrix. -/
def linearProduct? : Ty → Ty → Option Ty
  | .matrix columns rows, .vector size kind =>
    if size = columns ∧ kind.isNumeric then some (vec rows) else none
  | .vector size kind, .matrix columns rows =>
    if size = rows ∧ kind.isNumeric then some (vec columns) else none
  | .matrix c r, .matrix d s => if c = s then some (.matrix d r) else none
  | _, _ => none

/-- Whether two values may be compared with `==`: one converts to the other's type. -/
def areComparable (left right : Ty) : Bool :=
  (match left with
    | .void | .function .. => false
    | _ => true)
  && (left.convertsTo right || right.convertsTo left)

/-- The type of `left op right`, if the operator is defined there. -/
def binary? (op : BinaryOp) (left right : Ty) : Option Ty :=
  match op with
  | .logicalAnd | .logicalOr => if left = bool ∧ right = bool then some bool else none
  | .equal | .notEqual => if areComparable left right then some bool else none
  | .less | .lessEqual | .greater | .greaterEqual =>
    match left, right with
    | .scalar a, .scalar b => (a.unify? b).map fun _ => bool
    | _, _ => none
  | .modulo => (componentWise? left right).filter fun ty => ty.kind? = some .int
  | .multiply =>
    if left.isMatrix || right.isMatrix then
      (linearProduct? left right).or (scaledMatrix? left right)
    else componentWise? left right
  | .add | .subtract | .divide => componentWise? left right

/-- The type of `op operand`, if the operator is defined there. -/
def unary? (op : UnaryOp) (operand : Ty) : Option Ty :=
  match op with
  | .negate =>
    if operand.isMatrix || operand.kind?.any Kind.isNumeric then some operand else none
  | .not => if operand = bool then some operand else none

def binaryResult (op : BinaryOp) (left right : Ty) : Except NodeError Ty :=
  match binary? op left right with
  | some ty => .ok ty
  | none => .error (.binaryMismatch op left right)

def unaryResult (op : UnaryOp) (operand : Ty) : Except NodeError Ty :=
  match unary? op operand with
  | some ty => .ok ty
  | none => .error (.unaryMismatch op operand)

end ShaderAlgebra.Ty
