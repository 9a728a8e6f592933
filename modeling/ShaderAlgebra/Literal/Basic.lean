import ShaderAlgebra.Number.Arithmetic
import ShaderAlgebra.Number.Decimal
import ShaderAlgebra.Ty.Name

/-!
# Literals

The constants that a tree holds: booleans, 32-bit integers and binary32 numbers. Two literals agree
when the values they denote are equal, so the two zeros agree and a NaN agrees with nothing, not
even with itself. That is weaker and stronger than being the same literal, which is the equality of
the type.
-/

namespace ShaderAlgebra

inductive Literal where
  | bool (value : Bool)
  | int (value : Int32)
  | float (value : Single)
deriving DecidableEq, Repr

namespace Literal

def kind : Literal → Kind
  | .bool _ => .bool
  | .int _ => .int
  | .float _ => .float

/-- Whether two literals have the same kind and equal values. -/
def agrees : Literal → Literal → Bool
  | .bool a, .bool b => a == b
  | .int a, .int b => a == b
  | .float a, .float b => a.equal b
  | _, _ => false

/-- The value of a numeric literal as a binary64 number, which holds it exactly. -/
def toDouble? : Literal → Option Double
  | .int value => some (Floating.ofInt value.toInt)
  | .float value => some (value.convert Format.double)
  | .bool _ => none

/-- The literal of the given kind nearest to a number: its integer part as an `int`, and whether it
differs from zero as a `bool`. -/
def ofDouble (kind : Kind) (value : Double) : Literal :=
  match kind with
  | .bool => .bool !(value.equal (Floating.zero false))
  | .int => .int value.toInt32
  | .float => .float (value.convert Format.single)

/-- The text of a `float` literal. It has a decimal point, so it never reads as an integer, and a
number that is not finite is written as the division that produces it. -/
def floatText (value : Single) : String :=
  if value.isNaN then "(0.0 / 0.0)"
  else if value.isInfinite then (if value.negative then "(-1.0 / 0.0)" else "(1.0 / 0.0)")
  else
    let digits := value.toDecimal
    if digits.toList.contains '.' then digits else digits ++ ".0"

def text : Literal → String
  | .bool true => "true"
  | .bool false => "false"
  | .int value => toString value.toInt
  | .float value => floatText value

/-- Whether the literal is written with a sign. -/
def isNegative : Literal → Bool
  | .bool _ => false
  | .int value => value < 0
  | .float value => value.negative

end Literal

end ShaderAlgebra
