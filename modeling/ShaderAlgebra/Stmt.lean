import ShaderAlgebra.Expr.Basic

/-!
# Statements

The statements of a function body, and the traversal that visits every expression they own.
-/

namespace ShaderAlgebra

inductive Stmt where
  /-- Declares a local variable. -/
  | declare (name : String) (ty : Ty) (init : Option Expr)
  /-- Evaluates an expression for its effect. -/
  | eval (expr : Expr)
  | ret (value : Option Expr)
  /-- An empty second block means that there is no `else`. -/
  | branch (condition : Expr) (accept reject : List Stmt)
  /-- A loop with an initial statement, a condition and a step, each of which may be missing. -/
  | loop (init : Option Stmt) (condition step : Option Expr) (body : List Stmt)
  | block (body : List Stmt)
  /-- Leaves the innermost loop. -/
  | leave
  /-- Goes on with the next round of the innermost loop. -/
  | next
deriving Repr, Inhabited

namespace Stmt

mutual

/-- Replaces every expression that the statement owns, directly or in a nested statement, by what
`visit` makes of it, in source order. A loop is visited in the order of its header, then its body.
-/
def traverse {m : Type → Type} [Monad m] (visit : Expr → m Expr) : Stmt → m Stmt
  | .declare name ty init => do return .declare name ty (← init.mapM visit)
  | .eval expr => do return .eval (← visit expr)
  | .ret value => do return .ret (← value.mapM visit)
  | .branch condition accept reject => do
    let condition ← visit condition
    let accept ← traverseAll visit accept
    let reject ← traverseAll visit reject
    return .branch condition accept reject
  | .loop init condition step body => do
    let init ← traverseOption visit init
    let condition ← condition.mapM visit
    let step ← step.mapM visit
    let body ← traverseAll visit body
    return .loop init condition step body
  | .block body => do return .block (← traverseAll visit body)
  | .leave => pure .leave
  | .next => pure .next

def traverseOption {m : Type → Type} [Monad m] (visit : Expr → m Expr) :
    Option Stmt → m (Option Stmt)
  | none => pure none
  | some s => do return some (← traverse visit s)

def traverseAll {m : Type → Type} [Monad m] (visit : Expr → m Expr) :
    List Stmt → m (List Stmt)
  | [] => pure []
  | s :: ss => do
    let s ← traverse visit s
    let ss ← traverseAll visit ss
    return s :: ss

end

end Stmt

end ShaderAlgebra
