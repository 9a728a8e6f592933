import ShaderAlgebra.Bindings
import ShaderAlgebra.Shader

/-!
# Derivative functions

The derivative of a function with respect to a parameter is a function of the same parameters, with
a name and a result type of its own. A `Catalogue` holds the functions whose calls the chain rule
can differentiate: `g(a, b)` has the derivative `dda_g(a, b) * da + ddb_g(a, b) * db`.
-/

namespace ShaderAlgebra

/-- The name of the derivative of a function with respect to a parameter. -/
def derivativeName (parameter function : String) : String := "dd" ++ parameter ++ "_" ++ function

namespace Ty

/-- The type of the derivative of a value with respect to a variable, unless that is a Jacobian or
one of the two is no number. Of two vectors of one size it is the diagonal of the Jacobian. -/
def derivative? (value argument : Ty) : Option Ty := do
  let value ← if value.isMatrix then some value else value.withKind? .float
  match value, argument with
  | .scalar _, .scalar .float => some .float
  | .scalar _, .vector size .float => some (.vec size)
  | .vector size _, .scalar .float => some (.vec size)
  | .vector size _, .vector other .float => if size = other then some (.vec size) else none
  | .matrix columns rows, .scalar .float => some (.matrix columns rows)
  | _, _ => none

end Ty

/-- The functions that the chain rule knows, each with the names of its parameters. -/
structure Catalogue where
  functions : Bindings (List String)
  /-- The names of derivative functions that do not exist. -/
  missing : List String
deriving Repr

namespace FunctionDef

/-- Whether the chain rule applies to calls: the result and every parameter is a `float`, every
parameter is only read, and there is one. -/
def isChainable (f : FunctionDef) : Bool :=
  f.result = .float && !f.parameters.isEmpty
    && f.parameters.all fun p => p.ty = .float && p.passing = .input

end FunctionDef

namespace Catalogue

def empty : Catalogue := ⟨.empty, []⟩

/-- Adds a function, if the chain rule applies to it. The last function of a name counts. -/
def register (catalogue : Catalogue) (f : FunctionDef) : Catalogue :=
  if f.isChainable then
    { catalogue with functions := catalogue.functions.set f.name (f.parameters.map (·.name)) }
  else catalogue

def registerAll (catalogue : Catalogue) (functions : List FunctionDef) : Catalogue :=
  functions.foldl register catalogue

/-- The functions of a shader. -/
def ofShader (shader : Shader) : Catalogue := empty.registerAll shader.functions

def parameters? (catalogue : Catalogue) (function : String) : Option (List String) :=
  catalogue.functions.get? function

/-- Whether the derivative of the function with respect to the parameter may be called. -/
def hasDerivative (catalogue : Catalogue) (function parameter : String) : Bool :=
  !catalogue.missing.contains (derivativeName parameter function)

/-- The catalogue in which that derivative does not exist. -/
def withoutDerivative (catalogue : Catalogue) (function parameter : String) : Catalogue :=
  if catalogue.hasDerivative function parameter then
    { catalogue with missing := derivativeName parameter function :: catalogue.missing }
  else catalogue

end Catalogue

end ShaderAlgebra
