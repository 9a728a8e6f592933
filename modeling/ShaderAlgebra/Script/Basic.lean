import ShaderAlgebra.Number.Decimal
import ShaderAlgebra.Operator

/-!
# Scripts

A small part of JavaScript, just large enough for lowered shaders. The operators are those of
shaders: equality is always the strict one.
-/

namespace ShaderAlgebra.Script

inductive Expr where
  /-- A number, as it is written. -/
  | number (digits : String)
  | bool (value : Bool)
  /-- A name, or a path such as `vec3.add`. -/
  | ident (name : String)
  | member (base : Expr) (property : String)
  | index (base position : Expr)
  | unary (op : UnaryOp) (operand : Expr)
  | binary (op : BinaryOp) (left right : Expr)
  | conditional (condition accept reject : Expr)
  | call (callee : Expr) (arguments : List Expr)
  | array (items : List Expr)
  /-- An object with its properties in order. -/
  | object (properties : List (String × Expr))
  | assign (op : Option BinaryOp) (target value : Expr)
deriving Repr, Inhabited

namespace Expr

def int (value : Int) : Expr := .number (toString value)

/-- The number in the fewest digits that read back. -/
def float (value : Single) : Expr :=
  .number
    (if value.isNaN then "NaN"
    else if value.isInfinite then (if value.negative then "-Infinity" else "Infinity")
    else value.toDecimal)

/-- A call of a function that has a name or a path. -/
def callOf (path : String) (arguments : List Expr) : Expr := .call (.ident path) arguments

end Expr

inductive Stmt where
  | declare (name : String) (init : Expr)
  | eval (expr : Expr)
  | ret (value : Option Expr)
  /-- An empty second block means that there is no `else`. -/
  | branch (condition : Expr) (accept reject : List Stmt)
  | loop (init : Option Stmt) (condition step : Option Expr) (body : List Stmt)
  | block (body : List Stmt)
  | leave
  | next
deriving Repr, Inhabited

/-- A name with its documented type. -/
structure Binding where
  name : String
  docType : String
deriving DecidableEq, Repr

structure Function where
  name : String
  parameters : List Binding
  /-- The documented result, if there is one. -/
  returns : Option String
  body : List Stmt
deriving Repr

inductive Item where
  /-- The documentation of an object type. -/
  | typedef (name : String) (properties : List Binding)
  | constant (binding : Binding) (value : Expr)
  /-- A variable, with a function that sets it if the host provides its value. -/
  | global (binding : Binding) (value : Expr) (hasSetter : Bool)
  | function (definition : Function)
deriving Repr

/-- A script without its preamble. -/
structure Module where
  items : List Item
deriving Repr

end ShaderAlgebra.Script
