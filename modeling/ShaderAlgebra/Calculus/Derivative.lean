import ShaderAlgebra.Calculus.Inline
import ShaderAlgebra.Calculus.Builtin

/-!
# Differentiation

The derivative of an expression goes by its root. Vectors are differentiated component by component:
the derivative of a vector with respect to a vector is the diagonal of the Jacobian, and what mixes
components has a derivative with respect to a scalar only.
-/

namespace ShaderAlgebra

namespace Derivation

open Derived

/-! ## Roots -/

/-- The derivative of a root from what its kind says: zero if it does not depend on the variable.
An error that has no place yet is at this root. -/
def atRoot (d : Derivation) (e : Expr) (rule : Unit → Derived Expr) : Derived Expr :=
  (if d.depends e then rule () else d.zero e.ty).mapError fun error => error.locate e.text

/-- `dl * r + l * dr`, without the term that is zero. -/
def product (d : Derivation) (left right : Operand) : Derived Expr := do
  if (left.expr.ty.isMatrix || right.expr.ty.isMatrix) && !d.isScalar then
    throw (.unsupported .matrixProduct)
  if !d.depends left.expr then multiply left.expr (← right.derivative)
  else if !d.depends right.expr then multiply (← left.derivative) right.expr
  else add (← multiply (← left.derivative) right.expr) (← multiply left.expr (← right.derivative))

/-- `(dl * r - l * dr) / (r * r)`, or less where a part is constant. -/
def ratio (d : Derivation) (left right : Operand) : Derived Expr := do
  if !d.depends right.expr then divide (← left.derivative) right.expr
  else
    let square ← multiply right.expr right.expr
    if !d.depends left.expr then
      negate (← divide (← multiply left.expr (← right.derivative)) square)
    else
      let above ← subtract (← multiply (← left.derivative) right.expr)
        (← multiply left.expr (← right.derivative))
      divide above square

def binary (d : Derivation) (op : BinaryOp) (left right : Operand) : Derived Expr :=
  match op with
  | .add => do add (← left.derivative) (← right.derivative)
  | .subtract => do subtract (← left.derivative) (← right.derivative)
  | .multiply => d.product left right
  | .divide => d.ratio left right
  | op => .unsupported (.binaryOperator op)

/-- The gradient of one component of a vector whose derivative is `derivative`: that component of
the derivative in its place and zeros elsewhere. -/
def component (d : Derivation) (derivative : Expr) (position : Nat) : Derived Expr := do
  match d.ty.size? with
  | some size =>
    if position < size.count then
      let picked ←
        match derivative.splat? with
        | some value => pure (.ofFloat (value.convert Format.single))
        | none => node (derivative.indexOf (.ofInt (Int32.ofNat position)))
      let arguments := (List.range size.count).map fun i =>
        if i = position then picked else .ofFloat .zero
      return .call (Ty.vec size).text arguments (.vec size)
    else .unsupported .outsideComponent
  | none => .unsupported .outsideComponent

def field (d : Derivation) (base : Operand) (name : String) : Derived Expr :=
  match base.expr.ty with
  | .vector size _ => do
    let swizzle ← Logged.ofExcept ((Swizzle.parse name).mapError .ofNode)
    let derivative ← base.derivative
    if d.isScalar then node (derivative.fieldOf name)
    else if swizzle.isIdentity size then return derivative
    else
      match swizzle.pattern with
      | [position] => d.component derivative position.index
      | _ => .unsupported .mixingSwizzle
  | _ => .unsupported .memberAccess

def index (d : Derivation) (base : Operand) (position : Expr) : Derived Expr :=
  match position.literal? with
  | some (.int i) =>
    if base.expr.ty.isVector && 0 ≤ i.toInt then do
      let derivative ← base.derivative
      if d.isScalar then node (derivative.indexOf position)
      else d.component derivative i.toInt.toNat
    else .unsupported .dynamicIndex
  | _ => .unsupported .dynamicIndex

/-! ## Calls -/

/-- The derivatives of the arguments, in order. -/
def derivatives : List Operand → Derived (List Expr)
  | [] => pure []
  | u :: us => do
    let du ← u.derivative
    return du :: (← derivatives us)

def construction (d : Derivation) (ty : Ty) (operands : List Operand) : Derived Expr :=
  let componentWise : Derived Expr :=
    if d.isScalar then do return .call ty.text (← derivatives operands) ty
    else .unsupported (.constructor ty d.ty)
  match ty with
  | .scalar .float =>
    match operands with
    | [value] => value.derivative
    | _ => .unsupported .constructorArity
  | .vector _ .float => componentWise
  | .matrix _ _ => componentWise
  | _ => .unsupported (.constructor ty d.ty)

/-- The terms of the chain rule, one for each argument that depends on the variable, added to
`total`. -/
def chainTerms (d : Derivation) (function : String) (arguments : List Expr) :
    Option Expr → List (String × Operand) → Derived (Option Expr)
  | total, [] => pure total
  | total, (parameter, u) :: rest => do
    if !d.depends u.expr then chainTerms d function arguments total rest
    else
      if !d.catalogue.hasDerivative function parameter then
        throw (.unsupported (.missingDerivative (derivativeName parameter function)))
      let slope := Expr.call (derivativeName parameter function) arguments .float
      let term ← multiply slope (← u.derivative)
      match total with
      | some total => chainTerms d function arguments (some (← add total term)) rest
      | none => chainTerms d function arguments (some term) rest

/-- The chain rule for a call of a declared function. -/
def chain (d : Derivation) (function : String) (parameters : List String) (operands : List Operand)
    (ty : Ty) : Derived Expr := do
  if parameters.length ≠ operands.length then
    throw (.unsupported .overloadedFunction)
  match ← d.chainTerms function (operands.map (·.expr)) none (parameters.zip operands) with
  | some total => return total
  | none => d.zero ty

def call (d : Derivation) (function : String) (operands : List Operand) (ty : Ty) : Derived Expr :=
  match Ty.ofName? function with
  | some constructed => d.construction constructed operands
  | none =>
    match Builtin.ofName? function with
    | some builtin =>
      match DerivativeRule.of? builtin with
      | some rule => rule d operands
      | none => missingRule builtin
    | none =>
      match d.catalogue.parameters? function with
      | some parameters => d.chain function parameters operands ty
      | none => .unsupported (.unknownCall function)

/-! ## Expressions -/

mutual

/-- The derivative as it comes, not simplified. -/
def derive (d : Derivation) : Expr → Derived Expr
  | .literal value ty => d.atRoot (.literal value ty) fun _ => d.zero ty
  | .ident name ty => d.atRoot (.ident name ty) fun _ => d.one
  | .unary .negate operand ty =>
    d.atRoot (.unary .negate operand ty) fun _ => do negate (← derive d operand)
  | .unary op operand ty =>
    d.atRoot (.unary op operand ty) fun _ => .unsupported (.unaryOperator op)
  | .binary op left right ty =>
    d.atRoot (.binary op left right ty) fun _ =>
      d.binary op ⟨left, derive d left⟩ ⟨right, derive d right⟩
  | .field base name ty =>
    d.atRoot (.field base name ty) fun _ => d.field ⟨base, derive d base⟩ name
  | .index base position ty =>
    d.atRoot (.index base position ty) fun _ => d.index ⟨base, derive d base⟩ position
  | .conditional condition accept reject ty =>
    d.atRoot (.conditional condition accept reject ty) fun _ => do
      match (← condition.simplified).literal? with
      | some (.bool true) => derive d accept
      | some (.bool false) => derive d reject
      | _ => .unsupported .dynamicConditional
  | .call function arguments ty =>
    d.atRoot (.call function arguments ty) fun _ =>
      d.call function (deriveAll d arguments) ty
  | .assign op target value ty =>
    d.atRoot (.assign op target value ty) fun _ => .unsupported .assignment

def deriveAll (d : Derivation) : List Expr → List Operand
  | [] => []
  | e :: es => ⟨e, derive d e⟩ :: deriveAll d es

end

end Derivation

namespace FunctionDef

/-- A scalar derivative spread over the vector type that the derivative should have. -/
def spread (derivative : Expr) (target : Ty) : Expr :=
  if derivative.ty.isScalar && target.isVector then .call target.text [derivative] target
  else derivative

/-- The simplified derivative of what the function returns, with respect to one of its
parameters. -/
def differentiate (f : FunctionDef) (name : String) (catalogue : Catalogue) : Derived Expr := do
  match f.parameter? name with
  | none => throw ⟨.unknownParameter name, f.name⟩
  | some parameter =>
    if parameter.passing ≠ .input then
      throw ⟨.unsupported (.writtenParameter parameter.passing), f.name⟩
    match f.result.derivative? parameter.ty with
    | none => throw ⟨.unsupported (.jacobian f.result parameter.ty), f.name⟩
    | some target =>
      let body ← f.expression
      let raw ← (Derivation.mk name parameter.ty catalogue).derive body
      let derivative ← raw.simplified
      Logged.emit (.differentiated f.name name raw.nodeCount derivative.nodeCount)
      return spread derivative target

end FunctionDef

end ShaderAlgebra
