import ShaderAlgebra.Simplify.Identity

/-!
# Conditionals, chains and like terms

Three changes that compare or regroup whole operands:

* a conditional with a literal condition is its branch, and one with agreeing branches is either;
* sums and products are nested to the left with literal factors in front, so that constants meet:
  `x * 2.0 * 3.0` and `2.0 * (3.0 * x)` both become `6.0 * x`. A product with a matrix is not
  commutative and is left alone;
* multiples of one term are added: `e + e` is `2.0 * e` and `a * e + b * e` is `(a + b) * e`.

Regrouping may change the rounding of a float result.
-/

namespace ShaderAlgebra.Expr

/-! ## Conditionals -/

/-- The branch that a conditional comes down to. -/
def chosen? : Expr → Option Expr
  | .conditional (.literal (.bool true) _) accept _ _ => some accept
  | .conditional (.literal (.bool false) _) _ reject _ => some reject
  | .conditional _ accept reject _ => if accept.agrees reject then some accept else none
  | _ => none

/-! ## Chains -/

/-- A product with its literal factor in front, or a chain nested to the left: `a op (b op c)` as
`(a op b) op c`. -/
def reassociated? : Expr → Option Expr
  | .binary op left right ty =>
    if op ≠ .add && op ≠ .multiply then none
    else if ty.isMatrix || left.ty.isMatrix || right.ty.isMatrix then none
    else if op = .multiply && right.literal?.isSome && left.literal?.isNone then
      combined? op right left
    else
      match right with
      | .binary inner b c _ =>
        if inner ≠ op || b.ty.isMatrix || c.ty.isMatrix then none
        else do combined? op (← combined? op left b) c
      | _ => none
  | _ => none

/-! ## Like terms -/

/-- A term as a coefficient, if it is written as a product, and the rest. -/
def splitTerm : Expr → Option Expr × Expr
  | .binary .multiply coefficient rest _ => (some coefficient, rest)
  | e => (none, e)

/-- The coefficient of a term. A term without one counts once, in the type of the other coefficient.
-/
def coefficient? (own other : Option Expr) : Option Expr :=
  match own with
  | some c => some c
  | none => do one? (← other).ty

/-- The literal two for adding a value of the type to itself. -/
def twoFor? (ty : Ty) : Option Expr :=
  ty.kind?.map fun
    | .int => ofInt 2
    | _ => ofFloat Single.two

/-- The sum or difference of a term with itself. -/
def doubled? (op : BinaryOp) (term : Expr) (ty : Ty) : Option Expr :=
  match op with
  | .add => do combined? .multiply (← twoFor? term.ty) term
  | _ => zero? ty

/-- The sum or difference of two multiples of one term. -/
def collected? : Expr → Option Expr
  | .binary op left right ty =>
    if op ≠ .add && op ≠ .subtract then none
    else if left.agrees right then doubled? op left ty
    else
      let (a, term) := left.splitTerm
      let (b, other) := right.splitTerm
      if !term.agrees other || (a.isNone && b.isNone) then none
      else do
        let a ← coefficient? a b
        let b ← coefficient? b (some a)
        combined? .multiply (← combined? op a b) term
  | _ => none

end ShaderAlgebra.Expr
