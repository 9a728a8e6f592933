import ShaderAlgebra.Bindings
import ShaderAlgebra.Calculus.Error
import ShaderAlgebra.Render.Shader
import ShaderAlgebra.Simplify.Pass

/-!
# Function bodies as expressions

A function is simple when its body comes down to one returned expression: locals and plain
assignments are put into what follows them, blocks are opened, and an `if` whose condition
simplifies to a literal gives way to the branch taken. `FunctionDef.expression` is that expression.
-/

namespace ShaderAlgebra

/-- The values of the variables in scope, innermost scope first. A local that was declared without
a value has none until its first assignment. A parameter is here only once it was assigned to. -/
structure Locals where
  inner : Bindings (Option Expr)
  outer : List (Bindings (Option Expr))
deriving Repr

namespace Locals

def empty : Locals := ⟨.empty, []⟩

/-- The value of the innermost variable of that name. -/
def get? (locals : Locals) (name : String) : Option (Option Expr) :=
  (locals.inner :: locals.outer).findSome? fun scope => scope.get? name

def declare (locals : Locals) (name : String) (value : Option Expr) : Locals :=
  { locals with inner := locals.inner.set name value }

/-- Binds the name where it is bound, innermost scope first, or else in the outermost scope. -/
def assignIn (name : String) (value : Option Expr) (scope : Bindings (Option Expr)) :
    List (Bindings (Option Expr)) → Locals
  | [] => ⟨scope.set name value, []⟩
  | next :: rest =>
    if scope.contains name then ⟨scope.set name value, next :: rest⟩
    else
      let outside := assignIn name value next rest
      ⟨scope, outside.inner :: outside.outer⟩

/-- Gives the innermost variable of that name a value. A name that is bound nowhere is a parameter:
its value is kept in the outermost scope. -/
def assign (locals : Locals) (name : String) (value : Expr) : Locals :=
  assignIn name (some value) locals.inner locals.outer

def openScope (locals : Locals) : Locals := ⟨.empty, locals.inner :: locals.outer⟩

/-- Drops the innermost scope. The outermost one stays. -/
def closeScope (locals : Locals) : Locals :=
  match locals.outer with
  | [] => locals
  | next :: rest => ⟨next, rest⟩

end Locals

namespace Expr

mutual

/-- Puts the values of the variables in scope in their places. Annotations are kept. -/
def inlineLocals (locals : Locals) : Expr → Except DiffError Expr
  | .literal value ty => .ok (.literal value ty)
  | .ident name ty =>
    match locals.get? name with
    | some (some value) => .ok value
    | some none => .error ⟨.notSimple (.readBeforeAssigned name), name⟩
    | none => .ok (.ident name ty)
  | .field base name ty => do return .field (← inlineLocals locals base) name ty
  | .index base position ty => do
    return .index (← inlineLocals locals base) (← inlineLocals locals position) ty
  | .unary op operand ty => do return .unary op (← inlineLocals locals operand) ty
  | .binary op left right ty => do
    return .binary op (← inlineLocals locals left) (← inlineLocals locals right) ty
  | .call function arguments ty => do
    return .call function (← inlineLocalsAll locals arguments) ty
  | .conditional condition accept reject ty => do
    return .conditional (← inlineLocals locals condition) (← inlineLocals locals accept)
      (← inlineLocals locals reject) ty
  | .assign op target value ty => do
    return .assign op (← inlineLocals locals target) (← inlineLocals locals value) ty

def inlineLocalsAll (locals : Locals) : List Expr → Except DiffError (List Expr)
  | [] => .ok []
  | e :: es => do return (← inlineLocals locals e) :: (← inlineLocalsAll locals es)

end

/-- The value that a variable of type `ty` takes: wrapped in a constructor if its type differs. -/
def storedAs (value : Expr) (ty : Ty) : Expr :=
  if value.ty = ty then value else .call ty.text [value] ty

/-- The variables after an expression statement, which must assign to a variable, plainly or with
one of the four arithmetic operators. -/
def inlineAssignment (e : Expr) (locals : Locals) : Except DiffError Locals :=
  let notSimple : DiffError := ⟨.notSimple .statement, e.text ++ ";"⟩
  match e with
  | .assign op (.ident name ty) value _ => do
    let value ← value.inlineLocals locals
    match op with
    | none => return locals.assign name (value.storedAs ty)
    | some op =>
      if op ∈ [.add, .subtract, .multiply, .divide] then
        let current ← (Expr.ident name ty).inlineLocals locals
        let combined ← (binaryOf op current value).mapError fun error =>
          (DiffError.ofNode error).locate e.text
        return locals.assign name (combined.storedAs ty)
      else throw notSimple
  | _ => .error notSimple

end Expr

/-- How a list of statements ends: with a returned value, or with the variables as they are then. -/
inductive Flow where
  | returned (value : Expr)
  | through (locals : Locals)
deriving Repr

namespace Flow

/-- The flow out of a scope. -/
def leaveScope : Flow → Flow
  | .returned value => .returned value
  | .through locals => .through locals.closeScope

end Flow

namespace Stmt

mutual

/-- What a statement does to the variables, or returns. -/
def inlineBody : Stmt → Locals → Logged DiffError Flow
  | .declare name _ none, locals => pure (.through (locals.declare name none))
  | .declare name ty (some init), locals => do
    let value ← init.inlineLocals locals
    return .through (locals.declare name (some (value.storedAs ty)))
  | .eval e, locals => do return .through (← e.inlineAssignment locals)
  | .ret (some value), locals => do return .returned (← value.inlineLocals locals)
  | .block body, locals => do return (← inlineBodies body locals.openScope).leaveScope
  | .branch condition accept reject, locals => do
    let condition ← (← condition.inlineLocals locals).simplified
    match condition.literal? with
    | some (.bool true) => return (← inlineBodies accept locals.openScope).leaveScope
    | some (.bool false) => return (← inlineBodies reject locals.openScope).leaveScope
    | _ => throw ⟨.unsupported .dynamicBranch, "if (" ++ condition.text ++ ")"⟩
  | .loop init condition step body, _ =>
    throw ⟨.unsupported .loop, Text.firstLine (Stmt.loop init condition step body).text⟩
  | .ret none, _ => throw ⟨.notSimple .statement, Text.firstLine (Stmt.ret none).text⟩
  | .leave, _ => throw ⟨.notSimple .statement, Text.firstLine Stmt.leave.text⟩
  | .next, _ => throw ⟨.notSimple .statement, Text.firstLine Stmt.next.text⟩

def inlineBodies : List Stmt → Locals → Logged DiffError Flow
  | [], locals => pure (.through locals)
  | s :: ss, locals => do
    match ← inlineBody s locals with
    | .returned value => return .returned value
    | .through locals => inlineBodies ss locals

end

end Stmt

namespace FunctionDef

/-- The expression that the function returns, with every local put in its place. -/
def expression (f : FunctionDef) : Logged DiffError Expr := do
  match ← Stmt.inlineBodies f.body .empty with
  | .returned value => return value
  | .through _ => throw ⟨.notSimple .missingReturn, f.name⟩

end FunctionDef

end ShaderAlgebra
