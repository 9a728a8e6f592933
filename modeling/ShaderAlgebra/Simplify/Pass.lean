import ShaderAlgebra.Logged
import ShaderAlgebra.Render.Expr
import ShaderAlgebra.Simplify.Rule
import ShaderAlgebra.Shader

/-!
# Simplification

A pass goes through a tree from the leaves up and gives every rule one chance at every node. Passes
are repeated until one changes nothing, sixty-four times at most.
-/

namespace ShaderAlgebra

/-- A list of rules, tried in order at each node. -/
abbrev Rules := List Rule

namespace Rules

/-! ## One pass -/

/-- Gives each rule in turn one chance at the root. Also gives the rules that changed it. -/
def settle (rules : Rules) (e : Expr) : Expr × List Rule :=
  match rules with
  | [] => (e, [])
  | rule :: rest =>
    match rule.apply e with
    | some new =>
      let (last, fired) := settle rest new
      (last, rule :: fired)
    | none => settle rest e

mutual

/-- One pass from the leaves up. Also gives the rules that changed a node, in order. -/
def pass (rules : Rules) : Expr → Expr × List Rule
  | .literal value ty => settle rules (.literal value ty)
  | .ident name ty => settle rules (.ident name ty)
  | .field base name ty =>
    let (base, inner) := pass rules base
    let (e, fired) := settle rules (.field base name ty)
    (e, inner ++ fired)
  | .index base position ty =>
    let (base, inBase) := pass rules base
    let (position, inPosition) := pass rules position
    let (e, fired) := settle rules (.index base position ty)
    (e, inBase ++ inPosition ++ fired)
  | .unary op operand ty =>
    let (operand, inner) := pass rules operand
    let (e, fired) := settle rules (.unary op operand ty)
    (e, inner ++ fired)
  | .binary op left right ty =>
    let (left, inLeft) := pass rules left
    let (right, inRight) := pass rules right
    let (e, fired) := settle rules (.binary op left right ty)
    (e, inLeft ++ inRight ++ fired)
  | .call function arguments ty =>
    let (arguments, inner) := passAll rules arguments
    let (e, fired) := settle rules (.call function arguments ty)
    (e, inner ++ fired)
  | .conditional condition accept reject ty =>
    let (condition, inCondition) := pass rules condition
    let (accept, inAccept) := pass rules accept
    let (reject, inReject) := pass rules reject
    let (e, fired) := settle rules (.conditional condition accept reject ty)
    (e, inCondition ++ inAccept ++ inReject ++ fired)
  | .assign op target value ty =>
    let (target, inTarget) := pass rules target
    let (value, inValue) := pass rules value
    let (e, fired) := settle rules (.assign op target value ty)
    (e, inTarget ++ inValue ++ fired)

def passAll (rules : Rules) : List Expr → List Expr × List Rule
  | [] => ([], [])
  | e :: es =>
    let (e, inFirst) := pass rules e
    let (es, inRest) := passAll rules es
    (e :: es, inFirst ++ inRest)

end

end Rules

/-! ## Repeated passes -/

/-- A simplified tree, whether it differs from what it was made of, and what was reported. -/
structure Simplified (α : Type) where
  result : α
  changed : Bool
  events : List Event

/-- The number of passes after which simplification gives up. -/
def passLimit : Nat := 64

namespace Rules

/-- Passes over an expression until one changes nothing, or none is left. `done` passes have made
`changes` changes so far. -/
def repeatPasses (rules : Rules) : (left : Nat) → (done changes : Nat) → Expr → Simplified Expr
  | 0, done, _, e => ⟨e, true, [.noFixedPoint done e.text]⟩
  | left + 1, done, changes, e =>
    let (e, fired) := pass rules e
    if fired.isEmpty then
      ⟨e, 0 < changes, if 0 < changes then [.simplified changes (done + 1)] else []⟩
    else
      let rest := repeatPasses rules left (done + 1) (changes + fired.length) e
      { rest with events := fired.map (fun rule => .ruleFired rule.name) ++ rest.events }

/-- Simplifies an expression. -/
def simplify (rules : Rules) (e : Expr) : Simplified Expr := repeatPasses rules passLimit 0 0 e

/-! ## Functions and shaders -/

/-- What simplification has done so far in a larger tree. -/
structure Progress where
  changed : Bool
  events : List Event

/-- Simplifies one expression of a larger tree. -/
def visit (rules : Rules) (e : Expr) : StateM Progress Expr := fun progress =>
  let one := rules.simplify e
  (one.result, ⟨progress.changed || one.changed, progress.events ++ one.events⟩)

/-- The result of a walk over a larger tree. -/
def collect {α : Type} (walk : StateM Progress α) : Simplified α :=
  let (result, progress) := walk.run ⟨false, []⟩
  ⟨result, progress.changed, progress.events⟩

def visitFunction (rules : Rules) (f : FunctionDef) : StateM Progress FunctionDef := do
  let body ← Stmt.traverseAll rules.visit f.body
  return { f with body := body }

def visitItem (rules : Rules) : Item → StateM Progress Item
  | .struct declaration => pure (.struct declaration)
  | .global declaration => do
    let init ← declaration.init.mapM rules.visit
    return .global { declaration with init := init }
  | .function f => do return .function (← rules.visitFunction f)

def visitItems (rules : Rules) : List Item → StateM Progress (List Item)
  | [] => pure []
  | item :: items => do
    let item ← rules.visitItem item
    let items ← rules.visitItems items
    return item :: items

/-- Simplifies every expression of a function body. -/
def simplifyFunction (rules : Rules) (f : FunctionDef) : Simplified FunctionDef :=
  collect (rules.visitFunction f)

/-- Simplifies every function body and every global initializer. -/
def simplifyShader (rules : Rules) (shader : Shader) : Simplified Shader :=
  collect do
    let items ← rules.visitItems shader.items
    return ⟨items⟩

end Rules

namespace Expr

/-- The expression simplified with every rule, and what was reported. -/
def simplified {ε : Type} (e : Expr) : Logged ε Expr :=
  let report := Rules.simplify Rule.all e
  ⟨report.events, .ok report.result⟩

end Expr

end ShaderAlgebra
