import ShaderAlgebra.Builtin.Basic
import ShaderAlgebra.Literal.Basic
import ShaderAlgebra.Swizzle

/-!
# Expressions

An expression is a tree whose every node carries a type, which is `unknown` until the tree has been
checked. This module holds the tree and the questions that are asked of it.

Trees are compared by `Expr.agrees`, which compares literals by their values: a tree that holds a
NaN does not agree with itself.
-/

namespace ShaderAlgebra

inductive Expr where
  | literal (value : Literal) (ty : Ty)
  | ident (name : String) (ty : Ty)
  /-- A struct member, or the swizzle of a vector. -/
  | field (base : Expr) (name : String) (ty : Ty)
  /-- An element of an array, a component of a vector or a column of a matrix. -/
  | index (base position : Expr) (ty : Ty)
  | unary (op : UnaryOp) (operand : Expr) (ty : Ty)
  | binary (op : BinaryOp) (left right : Expr) (ty : Ty)
  /-- A call of a built-in function, a type constructor or a declared function. -/
  | call (function : String) (arguments : List Expr) (ty : Ty)
  | conditional (condition accept reject : Expr) (ty : Ty)
  /-- A plain assignment, or a compound one with an operator. -/
  | assign (op : Option BinaryOp) (target value : Expr) (ty : Ty)
deriving Repr, Inhabited

namespace Expr

/-- The type annotation of the root. -/
def ty : Expr → Ty
  | .literal _ ty | .ident _ ty | .field _ _ ty | .index _ _ ty | .unary _ _ ty
  | .binary _ _ _ ty | .call _ _ ty | .conditional _ _ _ ty | .assign _ _ _ ty => ty

/-! ## Comparison -/

mutual

/-- Whether two trees have the same form, names and annotations, and literals with equal values. -/
def agrees : Expr → Expr → Bool
  | .literal a s, .literal b t => a.agrees b && s == t
  | .ident a s, .ident b t => a == b && s == t
  | .field a m s, .field b n t => agrees a b && m == n && s == t
  | .index a i s, .index b j t => agrees a b && agrees i j && s == t
  | .unary o a s, .unary p b t => o == p && agrees a b && s == t
  | .binary o a c s, .binary p b d t => o == p && agrees a b && agrees c d && s == t
  | .call f as s, .call g bs t => f == g && agreeAll as bs && s == t
  | .conditional a c e s, .conditional b d f t =>
    agrees a b && agrees c d && agrees e f && s == t
  | .assign o a c s, .assign p b d t => o == p && agrees a b && agrees c d && s == t
  | _, _ => false

/-- Whether two lists of trees agree one by one. -/
def agreeAll : List Expr → List Expr → Bool
  | [], [] => true
  | a :: as, b :: bs => agrees a b && agreeAll as bs
  | _, _ => false

end

/-! ## Parts -/

/-- The direct parts of a node, in order of evaluation. -/
def children : Expr → List Expr
  | .literal .. | .ident .. => []
  | .field base _ _ => [base]
  | .index base position _ => [base, position]
  | .unary _ operand _ => [operand]
  | .binary _ left right _ => [left, right]
  | .call _ arguments _ => arguments
  | .conditional condition accept reject _ => [condition, accept, reject]
  | .assign _ target value _ => [target, value]

mutual

/-- The number of nodes of the tree. -/
def nodeCount : Expr → Nat
  | .literal .. | .ident .. => 1
  | .field base _ _ => 1 + nodeCount base
  | .index base position _ => 1 + nodeCount base + nodeCount position
  | .unary _ operand _ => 1 + nodeCount operand
  | .binary _ left right _ => 1 + nodeCount left + nodeCount right
  | .call _ arguments _ => 1 + nodeCountAll arguments
  | .conditional condition accept reject _ =>
    1 + nodeCount condition + nodeCount accept + nodeCount reject
  | .assign _ target value _ => 1 + nodeCount target + nodeCount value

def nodeCountAll : List Expr → Nat
  | [] => 0
  | e :: es => nodeCount e + nodeCountAll es

end

mutual

/-- Whether the name occurs as an identifier in the tree. -/
def mentions (name : String) : Expr → Bool
  | .literal .. => false
  | .ident other _ => other == name
  | .field base _ _ => mentions name base
  | .index base position _ => mentions name base || mentions name position
  | .unary _ operand _ => mentions name operand
  | .binary _ left right _ => mentions name left || mentions name right
  | .call _ arguments _ => mentionsAny name arguments
  | .conditional condition accept reject _ =>
    mentions name condition || mentions name accept || mentions name reject
  | .assign _ target value _ => mentions name target || mentions name value

def mentionsAny (name : String) : List Expr → Bool
  | [] => false
  | e :: es => mentions name e || mentionsAny name es

end

/-! ## Views of the root -/

def literal? : Expr → Option Literal
  | .literal value _ => some value
  | _ => none

def binary? : Expr → Option (BinaryOp × Expr × Expr)
  | .binary op left right _ => some (op, left, right)
  | _ => none

def unary? : Expr → Option (UnaryOp × Expr)
  | .unary op operand _ => some (op, operand)
  | _ => none

def call? : Expr → Option (String × List Expr)
  | .call function arguments _ => some (function, arguments)
  | _ => none

/-- The built-in function that the root calls. -/
def builtin? : Expr → Option Builtin
  | .call function _ _ => Builtin.ofName? function
  | _ => none

/-- The selector of the root, if it is a field of a vector. -/
def swizzle? : Expr → Option Swizzle
  | .field base name _ => if base.ty.isVector then Swizzle.parse? name else none
  | _ => none

/-- The number that fills the value of the root: a numeric literal, or the one literal argument of a
vector or matrix constructor such as `vec3(0.0)`. -/
def splat? : Expr → Option Double
  | .literal value _ => value.toDouble?
  | .call function [.literal value _] ty =>
    if (ty.isVector || ty.isMatrix) && Ty.ofName? function = some ty then value.toDouble? else none
  | _ => none

/-- Whether the root is filled with the given number. -/
def isFilledWith (number : Double) (e : Expr) : Bool := e.splat?.any fun value => value.equal number

def isZero (e : Expr) : Bool := e.isFilledWith (Floating.zero false)

/-- Whether the root is a one: a literal, a vector of ones, or the identity matrix. -/
def isOne (e : Expr) : Bool := e.isFilledWith (Floating.unit false)

/-! ## Classes of expressions -/

mutual

/-- Whether the value is fixed: the tree has only literals, operators, type constructors and
built-in calls. -/
def isConstant : Expr → Bool
  | .literal .. => true
  | .ident .. | .assign .. => false
  | .field base _ _ => isConstant base
  | .index base position _ => isConstant base && isConstant position
  | .unary _ operand _ => isConstant operand
  | .binary _ left right _ => isConstant left && isConstant right
  | .call function arguments _ =>
    ((Ty.ofName? function).isSome || (Builtin.ofName? function).isSome) && areConstant arguments
  | .conditional condition accept reject _ =>
    isConstant condition && isConstant accept && isConstant reject

def areConstant : List Expr → Bool
  | [] => true
  | e :: es => isConstant e && areConstant es

end

/-- Whether the expression denotes storage: a variable, or a field or element of storage. A swizzle
denotes storage when it picks no component twice. -/
def isLvalue : Expr → Bool
  | .ident .. => true
  | .field base name ty =>
    isLvalue base && ((Expr.field base name ty).swizzle?.all Swizzle.isDistinct)
  | .index base _ _ => isLvalue base
  | _ => false

end Expr

end ShaderAlgebra
