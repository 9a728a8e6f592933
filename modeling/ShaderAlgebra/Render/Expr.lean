import ShaderAlgebra.Expr.Basic

/-!
# Text of expressions

An expression is written with parentheses only where precedence or associativity asks for them. Each
form has a binding strength; an operand that binds more loosely than its position demands is put in
parentheses.
-/

namespace ShaderAlgebra

/-- How tightly a form of expression binds, loosest first. -/
abbrev Strength := Nat

namespace Strength

def assignment : Strength := 1

def conditional : Strength := 2

def unary : Strength := 9

def postfixForm : Strength := 10

def primary : Strength := 11

end Strength

namespace BinaryOp

def strength : BinaryOp → Strength
  | .logicalOr => 3
  | .logicalAnd => 4
  | .equal | .notEqual => 5
  | .less | .lessEqual | .greater | .greaterEqual => 6
  | .add | .subtract => 7
  | .multiply | .divide | .modulo => 8

end BinaryOp

namespace Expr

/-- Whether the expression is a literal written with a sign. -/
def isNegativeLiteral : Expr → Bool
  | .literal value _ => value.isNegative
  | _ => false

/-- The binding strength of the root. A literal with a sign binds like a negation. -/
def strength : Expr → Strength
  | .literal value _ => if value.isNegative then Strength.unary else Strength.primary
  | .ident .. | .call .. => Strength.primary
  | .field .. | .index .. => Strength.postfixForm
  | .unary .. => Strength.unary
  | .binary op _ _ _ => op.strength
  | .conditional .. => Strength.conditional
  | .assign .. => Strength.assignment

/-- Whether a sign in front of the expression would run into its own sign. -/
def startsWithMinus : Expr → Bool
  | .unary .negate _ _ => true
  | e => e.isNegativeLiteral

end Expr

/-- The text, in parentheses if asked. -/
def parenthesized (wrap : Bool) (text : String) : String :=
  if wrap then "(" ++ text ++ ")" else text

namespace Expr

mutual

/-- The text of an expression. -/
def text : Expr → String
  | .literal value _ => value.text
  | .ident name _ => name
  | .field base name _ =>
    parenthesized (base.strength < Strength.postfixForm) (text base) ++ "." ++ name
  | .index base position _ =>
    parenthesized (base.strength < Strength.postfixForm) (text base) ++ "[" ++ text position ++ "]"
  | .unary op operand _ =>
    op.symbol
      ++ parenthesized (operand.strength < Strength.unary || operand.startsWithMinus) (text operand)
  | .binary op left right _ =>
    parenthesized (left.strength < op.strength) (text left) ++ " " ++ op.symbol ++ " "
      ++ parenthesized (right.strength ≤ op.strength) (text right)
  | .call function arguments _ => function ++ "(" ++ textArguments arguments ++ ")"
  | .conditional condition accept reject _ =>
    parenthesized (condition.strength ≤ Strength.conditional) (text condition) ++ " ? "
      ++ parenthesized (accept.strength ≤ Strength.assignment) (text accept) ++ " : "
      ++ parenthesized (reject.strength < Strength.conditional) (text reject)
  | .assign none target value _ => text target ++ " = " ++ text value
  | .assign (some op) target value _ => text target ++ " " ++ op.symbol ++ "= " ++ text value

/-- Arguments separated by commas. -/
def textArguments : List Expr → String
  | [] => ""
  | [e] => parenthesized (e.strength ≤ Strength.assignment) (text e)
  | e :: es =>
    parenthesized (e.strength ≤ Strength.assignment) (text e) ++ ", " ++ textArguments es

end

end Expr

end ShaderAlgebra
