import ShaderAlgebra.Calculus.Derivative
import ShaderAlgebra.Typing.Check

/-!
# Differentiating shaders

`Shader.differentiate` adds the derivative of every function with respect to every parameter. A
derivative that fails is one that the chain rule may not call, which can make others fail in turn,
wherever they stand. So all are derived again, with what failed left out, until no more fail.
-/

namespace ShaderAlgebra

/-- What becomes of the functions that are differentiated. -/
inductive InputHandling where
  /-- They are dropped; structs and globals stay. -/
  | omitted
  /-- Each is followed by its derivatives. -/
  | embedded
  /-- All items come first, then all derivatives. -/
  | prepended
deriving DecidableEq, Repr

namespace InputHandling

def text : InputHandling → String
  | .omitted => "Omit"
  | .embedded => "Embed"
  | .prepended => "Prepend"

end InputHandling

structure DerivativeOptions where
  input : InputHandling
  /-- Whether derivatives that fail are left out; otherwise one fails the whole shader. -/
  skipUnsupported : Bool
deriving DecidableEq, Repr

/-- Why a shader has no derivative. -/
inductive ShaderError where
  | type (error : TypeError)
  | derivative (function parameter : String) (error : DiffError)
deriving DecidableEq, Repr

namespace ShaderError

def message : ShaderError → String
  | .type error => error.message
  | .derivative function parameter error =>
    "derivative of `" ++ function ++ "` with respect to `" ++ parameter ++ "`: " ++ error.message

end ShaderError

/-- A derivative that was left out. -/
structure Skipped where
  function : String
  parameter : String
  error : DiffError
deriving DecidableEq, Repr

/-- A shader with derivatives, and the derivatives it lacks. -/
structure DerivedShader where
  shader : Shader
  skipped : List Skipped
deriving Repr

/-! ## Derivative functions -/

/-- What came of differentiating a function with respect to a parameter. -/
structure Attempt where
  function : String
  parameter : String
  outcome : Except DiffError FunctionDef

namespace Attempt

def hasFailed (attempt : Attempt) : Bool :=
  match attempt.outcome with
  | .ok _ => false
  | .error _ => true

/-- Whether the chain rule may still call a derivative that failed. -/
def isNewFailure (catalogue : Catalogue) (attempt : Attempt) : Bool :=
  attempt.hasFailed && catalogue.hasDerivative attempt.function attempt.parameter

end Attempt

namespace FunctionDef

/-- The derivative function with respect to a parameter: it takes the same parameters. -/
def derivativeFunction (f : FunctionDef) (name : String) (catalogue : Catalogue) :
    Derived FunctionDef := do
  let body ← f.differentiate name catalogue
  let result := (f.parameter? name).bind fun parameter => f.result.derivative? parameter.ty
  return {
    name := derivativeName name f.name
    parameters := f.parameters
    result := result.getD body.ty
    body := [.ret (some body)] }

/-- Differentiates with respect to each of the parameters. -/
def attempts {ε : Type} (f : FunctionDef) (catalogue : Catalogue) :
    List Parameter → Logged ε (List Attempt)
  | [] => pure []
  | p :: ps => do
    let outcome ← (f.derivativeFunction p.name catalogue).attempt
    return ⟨f.name, p.name, outcome⟩ :: (← attempts f catalogue ps)

end FunctionDef

namespace Catalogue

/-- Differentiates each function with respect to each of its parameters. -/
def attemptAll {ε : Type} (catalogue : Catalogue) :
    List FunctionDef → Logged ε (List (List Attempt))
  | [] => pure []
  | f :: fs => do
    let first ← f.attempts catalogue f.parameters
    return first :: (← attemptAll catalogue fs)

/-- The catalogue without the derivatives that failed. -/
def withoutFailures (catalogue : Catalogue) (failures : List Attempt) : Catalogue :=
  failures.foldl (fun known attempt => known.withoutDerivative attempt.function attempt.parameter)
    catalogue

/-- Differentiates until no derivative fails that the chain rule may call. Each round but the last
takes at least one derivative away, so as many rounds as there are derivatives are enough. -/
def stableAttempts {ε : Type} (functions : List FunctionDef) :
    (rounds : Nat) → Catalogue → Logged ε (List (List Attempt))
  | 0, catalogue => catalogue.attemptAll functions
  | rounds + 1, catalogue => do
    let attempts ← catalogue.attemptAll functions
    let failures := attempts.flatten.filter (Attempt.isNewFailure catalogue)
    if failures.isEmpty then return attempts
    else stableAttempts functions rounds (catalogue.withoutFailures failures)

end Catalogue

/-! ## Shaders -/

/-- The items made of a part of a shader: those that stay in place, those that go to the end, and
the derivatives left out. -/
structure Placement where
  placed : List Item
  appended : List Item
  skipped : List Skipped

namespace Placement

def empty : Placement := ⟨[], [], []⟩

def append (first second : Placement) : Placement :=
  ⟨first.placed ++ second.placed, first.appended ++ second.appended,
    first.skipped ++ second.skipped⟩

end Placement

namespace DerivativeOptions

/-- Where a derivative goes. -/
def placeDerivative (options : DerivativeOptions) (derivative : FunctionDef) : Placement :=
  if options.input = .prepended then ⟨[], [.function derivative], []⟩
  else ⟨[.function derivative], [], []⟩

/-- Places the derivatives of one function. -/
def placeAttempts (options : DerivativeOptions) : List Attempt → Logged ShaderError Placement
  | [] => pure .empty
  | attempt :: rest =>
    match attempt.outcome with
    | .ok derivative => do
      return (options.placeDerivative derivative).append (← placeAttempts options rest)
    | .error error =>
      if options.skipUnsupported then do
        Logged.emit (.skippedDerivative attempt.function attempt.parameter error.message)
        let skipped := Skipped.mk attempt.function attempt.parameter error
        return (Placement.mk [] [] [skipped]).append (← placeAttempts options rest)
      else throw (.derivative attempt.function attempt.parameter error)

/-- Places the items of a shader and the derivatives of its functions, which are given in the order
of the functions. -/
def place (options : DerivativeOptions) :
    List Item → List (List Attempt) → Logged ShaderError Placement
  | [], _ => pure .empty
  | .function f :: items, derivatives => do
    let kept := if options.input = .omitted then [] else [Item.function f]
    let own ← options.placeAttempts (derivatives.headD [])
    let rest ← place options items derivatives.tail
    return (Placement.mk kept [] []).append (own.append rest)
  | item :: items, derivatives => do
    return (Placement.mk [item] [] []).append (← place options items derivatives)

end DerivativeOptions

namespace Shader

/-- The number of derivatives that the functions have. -/
def derivativeCount (functions : List FunctionDef) : Nat :=
  (functions.map fun f => f.parameters.length).foldl (· + ·) 0

/-- Type-checks a shader and adds the derivative of every function with respect to every
parameter. -/
def differentiate (shader : Shader) (options : DerivativeOptions) :
    Logged ShaderError DerivedShader := do
  let annotated ← shader.infer.mapError .type
  let functions := annotated.functions
  let attempts ←
    Catalogue.stableAttempts functions (derivativeCount functions) (.ofShader annotated)
  let placement ← options.place annotated.items attempts
  let items := placement.placed ++ placement.appended
  Logged.emit (.differentiatedShader items.length placement.skipped.length)
  return ⟨⟨items⟩, placement.skipped⟩

end Shader

end ShaderAlgebra
