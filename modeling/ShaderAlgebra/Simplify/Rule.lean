import ShaderAlgebra.Simplify.Fold
import ShaderAlgebra.Simplify.Terms

/-!
# Rules

A rule looks at the root of a tree whose parts it takes as they are. `candidate?` is what the rule
makes of the root; `apply` is that, if it differs and keeps the type. A node of unknown type takes
any replacement.
-/

namespace ShaderAlgebra

inductive Rule where
  | constantFolding
  | algebraicIdentities
  | conditionalElimination
  | reassociation
  | likeTerms
deriving DecidableEq, Repr

namespace Rule

/-- Every rule, in the order in which they are tried. -/
def all : List Rule :=
  [.constantFolding, .algebraicIdentities, .conditionalElimination, .reassociation, .likeTerms]

def name : Rule → String
  | .constantFolding => "constant-folding"
  | .algebraicIdentities => "algebraic-identities"
  | .conditionalElimination => "conditional-elimination"
  | .reassociation => "reassociation"
  | .likeTerms => "like-terms"

def ofName? (name : String) : Option Rule := all.find? fun rule => rule.name == name

/-- What the rule makes of the root. -/
def candidate? : Rule → Expr → Option Expr
  | .constantFolding => Expr.fold?
  | .algebraicIdentities => Expr.identity?
  | .conditionalElimination => Expr.chosen?
  | .reassociation => Expr.reassociated?
  | .likeTerms => Expr.collected?

/-- Whether a tree may be replaced by another: it differs, and its type is kept or was unknown. -/
def accepts (old new : Expr) : Bool :=
  !new.agrees old && (new.ty = old.ty || old.ty = .unknown)

/-- The tree that replaces the root, if the rule changes it. -/
def apply (rule : Rule) (e : Expr) : Option Expr := (rule.candidate? e).filter (accepts e)

end Rule

end ShaderAlgebra
