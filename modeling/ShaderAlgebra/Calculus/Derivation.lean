import ShaderAlgebra.Calculus.Catalogue
import ShaderAlgebra.Calculus.Error
import ShaderAlgebra.Expr.Build
import ShaderAlgebra.Logged
import ShaderAlgebra.Number.Constants

/-!
# What derivatives are made of

A `Derivation` fixes the variable. Derivatives are built from annotated nodes, so a rule that puts
together parts that do not fit is an error and never an ill-typed tree.
-/

namespace ShaderAlgebra

/-- A derivative, or why there is none. -/
abbrev Derived (α : Type) := Logged DiffError α

/-- The variable that expressions are differentiated by, and the functions that the chain rule
knows. -/
structure Derivation where
  name : String
  ty : Ty
  catalogue : Catalogue

/-- An argument of a call with its derivative. -/
structure Operand where
  expr : Expr
  derivative : Derived Expr

namespace Derived

def unsupported {α : Type} (what : Unsupported) : Derived α := throw (.unsupported what)

def missingRule {α : Type} (builtin : Builtin) : Derived α := throw ⟨.missingRule builtin, ""⟩

/-! ## Nodes over derivatives -/

def node (built : Except NodeError Expr) : Derived Expr := .ofExcept (built.mapError .ofNode)

def negate (operand : Expr) : Derived Expr := node (Expr.unaryOf .negate operand)

def add (left right : Expr) : Derived Expr := node (Expr.binaryOf .add left right)

def subtract (left right : Expr) : Derived Expr := node (Expr.binaryOf .subtract left right)

def multiply (left right : Expr) : Derived Expr := node (Expr.binaryOf .multiply left right)

def divide (left right : Expr) : Derived Expr := node (Expr.binaryOf .divide left right)

def less (left right : Expr) : Derived Expr := node (Expr.binaryOf .less left right)

def greater (left right : Expr) : Derived Expr := node (Expr.binaryOf .greater left right)

def select (condition accept reject : Expr) : Derived Expr :=
  node (Expr.conditionalOf condition accept reject)

/-- The terms added up from the left, starting with `total`. -/
def addTerms (total : Expr) : List Expr → Derived Expr
  | [] => pure total
  | term :: terms => do addTerms (← add total term) terms

/-- The term alone, if it is wanted. -/
def termIf (wanted : Bool) (term : Derived Expr) : Derived (List Expr) :=
  if wanted then do return [← term] else pure []

end Derived

namespace Derivation

/-- Whether the variable is a scalar. If it is a vector, everything is component by component. -/
def isScalar (d : Derivation) : Bool := d.ty.isScalar

/-- Whether the expression mentions the variable. -/
def depends (d : Derivation) (e : Expr) : Bool := e.mentions d.name

def jacobian (d : Derivation) (value : Ty) : Unsupported := .jacobian value d.ty

/-- The derivative of a constant of that type. -/
def zero (d : Derivation) (value : Ty) : Derived Expr :=
  match value.derivative? d.ty >>= Expr.zero? with
  | some zero => pure zero
  | none => .unsupported (d.jacobian value)

/-- The derivative of the variable itself. -/
def one (d : Derivation) : Derived Expr :=
  match Expr.one? d.ty with
  | some one => pure one
  | none => .unsupported (d.jacobian d.ty)

/-- The sum of the terms. No terms are a constant of type `value`. -/
def sum (d : Derivation) (terms : List Expr) (value : Ty) : Derived Expr :=
  match terms with
  | [] => d.zero value
  | first :: rest => Derived.addTerms first rest

end Derivation

end ShaderAlgebra
