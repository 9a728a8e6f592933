import ShaderAlgebra.Expr.Basic
import ShaderAlgebra.Ty.Operation

/-!
# Building annotated nodes

Each function here puts a node over annotated parts and gives it the type that its parts determine,
or says why there is none. `Expr.rebuild` does so from the leaves up.
-/

namespace ShaderAlgebra.Expr

/-! ## Leaves -/

/-- A literal with its own type. -/
def ofLiteral (value : Literal) : Expr := .literal value (.scalar value.kind)

def ofBool (value : Bool) : Expr := ofLiteral (.bool value)

def ofInt (value : Int32) : Expr := ofLiteral (.int value)

def ofFloat (value : Single) : Expr := ofLiteral (.float value)

/-! ## Inner nodes -/

def unaryOf (op : UnaryOp) (operand : Expr) : Except NodeError Expr :=
  (operand.ty.unaryResult op).map (.unary op operand)

def binaryOf (op : BinaryOp) (left right : Expr) : Except NodeError Expr :=
  (Ty.binaryResult op left.ty right.ty).map (.binary op left right)

/-- The type of a field: a swizzle of a vector, else a struct member. -/
def fieldType (base : Ty) (name : String) : Except NodeError Ty :=
  if base.isVector then do (← Swizzle.parse name).resultType base
  else
    match base.member? name with
    | some ty => .ok ty
    | none => .error (.unknownField base name)

def fieldOf (base : Expr) (name : String) : Except NodeError Expr :=
  (fieldType base.ty name).map (.field base name)

def indexOf (base position : Expr) : Except NodeError Expr :=
  match base.ty.element? with
  | some ty => .ok (.index base position ty)
  | none => .error (.notIndexable base.ty)

/-- A conditional, whose branches must have the same type. -/
def conditionalOf (condition accept reject : Expr) : Except NodeError Expr :=
  if accept.ty = reject.ty then .ok (.conditional condition accept reject accept.ty)
  else .error (.branchMismatch accept.ty reject.ty)

/-! ## Constants -/

/-- The constant of a numeric type filled with a number: a literal for a scalar, a constructor with
one argument for a vector or a matrix. For a matrix it is that multiple of the identity. -/
def constant? (ty : Ty) (value : Double) : Option Expr :=
  match ty with
  | .scalar kind => if kind.isNumeric then some (ofLiteral (Literal.ofDouble kind value)) else none
  | .vector _ kind =>
    if kind.isNumeric then some (.call ty.text [ofLiteral (Literal.ofDouble kind value)] ty)
    else none
  | .matrix .. => some (.call ty.text [ofFloat (value.convert Format.single)] ty)
  | _ => none

/-- The neutral element of addition. -/
def zero? (ty : Ty) : Option Expr := constant? ty (Floating.zero false)

/-- The neutral element of multiplication. -/
def one? (ty : Ty) : Option Expr := constant? ty (Floating.unit false)

/-! ## Whole trees -/

mutual

/-- The tree with every operator, field, index and conditional annotated anew from its parts.
Literals have their own type; identifiers, calls and assignments keep their annotation. -/
def rebuild : Expr → Except NodeError Expr
  | .literal value _ => .ok (ofLiteral value)
  | .ident name ty => .ok (.ident name ty)
  | .field base name _ => do fieldOf (← rebuild base) name
  | .index base position _ => do indexOf (← rebuild base) (← rebuild position)
  | .unary op operand _ => do unaryOf op (← rebuild operand)
  | .binary op left right _ => do binaryOf op (← rebuild left) (← rebuild right)
  | .call function arguments ty => do return .call function (← rebuildAll arguments) ty
  | .conditional condition accept reject _ => do
    conditionalOf (← rebuild condition) (← rebuild accept) (← rebuild reject)
  | .assign op target value ty => do return .assign op (← rebuild target) (← rebuild value) ty

def rebuildAll : List Expr → Except NodeError (List Expr)
  | [] => .ok []
  | e :: es => do return (← rebuild e) :: (← rebuildAll es)

end

end ShaderAlgebra.Expr
