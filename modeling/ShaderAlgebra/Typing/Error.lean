import ShaderAlgebra.NodeError
import ShaderAlgebra.Text.Blank

/-!
# Type errors

Why a tree does not type-check, and where. Checking stops at the first error.
-/

namespace ShaderAlgebra

/-- What is wrong. -/
inductive TypeFault where
  | unknownIdentifier (name : String)
  | unknownFunction (name : String)
  /-- No form of the function takes that many arguments. -/
  | arityMismatch (function : String) (found : Nat)
  /-- No form of the function takes arguments of those types. -/
  | noOverload (function : String) (arguments : List Ty)
  | notConstructible (name : String) (arguments : List Ty)
  | badInitializer (name : String) (declared found : Ty)
  | badCondition (found : Ty)
  | badDeclaration (name : String) (ty : Ty)
  | badIndex (found : Ty)
  | badAssignment (target value : Ty)
  /-- The parts of a node do not fit together. -/
  | badNode (error : NodeError)
  | notAssignable
  | returnMismatch (expected found : Ty)
deriving DecidableEq, Repr

namespace TypeFault

def message : TypeFault → String
  | .unknownIdentifier name => "unknown identifier `" ++ name ++ "`"
  | .unknownFunction name => "unknown function `" ++ name ++ "`"
  | .arityMismatch function found =>
    "`" ++ function ++ "` does not take " ++ toString found ++ " argument(s)"
  | .noOverload function arguments =>
    "no overload of `" ++ function ++ "` takes (" ++ Ty.textList arguments ++ ")"
  | .notConstructible name arguments =>
    "cannot construct `" ++ name ++ "` from (" ++ Ty.textList arguments ++ ")"
  | .badInitializer name declared found =>
    "cannot initialize `" ++ declared.text ++ " " ++ name ++ "` with `" ++ found.text ++ "`"
  | .badCondition found => "condition must be `bool`, found `" ++ found.text ++ "`"
  | .badDeclaration name ty => "cannot declare `" ++ name ++ "` as `" ++ ty.text ++ "`"
  | .badIndex found => "index must be `int`, found `" ++ found.text ++ "`"
  | .badAssignment target value => "cannot assign `" ++ value.text ++ "` to `" ++ target.text ++ "`"
  | .badNode error => error.message
  | .notAssignable => "expression is not assignable"
  | .returnMismatch expected found =>
    "returning `" ++ found.text ++ "` from a function declared to return `" ++ expected.text ++ "`"

end TypeFault

/-- A place in a shader: the first line of a node's text, and the function around it. -/
structure Location where
  function : Option String
  node : String
deriving DecidableEq, Repr

namespace Location

/-- The place of a node with the given text. -/
def ofText (function : Option String) (text : String) : Location :=
  ⟨function, Text.trim (Text.firstLine text)⟩

def text (location : Location) : String :=
  match location.function with
  | some function => "`" ++ location.node ++ "` in function `" ++ function ++ "`"
  | none => "`" ++ location.node ++ "` at module scope"

end Location

structure TypeError where
  fault : TypeFault
  location : Location
deriving DecidableEq, Repr

namespace TypeError

def message (error : TypeError) : String :=
  error.fault.message ++ " at " ++ error.location.text

end TypeError

end ShaderAlgebra
