import ShaderAlgebra.Literal.Basic
import ShaderAlgebra.Operator

/-!
# Operators on literals

The value of an operator or a scalar conversion whose operands are literals. There is none where the
operator is not defined on the kinds of its operands, or where the result leaves the range of a
32-bit integer. A float result may be infinite or NaN here.
-/

namespace ShaderAlgebra

/-- The 32-bit integer of that value, if it is in range. -/
def int32? (value : Int) : Option Int32 :=
  if Int32.minValue.toInt ≤ value ∧ value ≤ Int32.maxValue.toInt then some (Int32.ofInt value)
  else none

namespace Literal

/-- The value of a numeric literal as a binary32 number, rounded if it is an integer. -/
def toSingle? : Literal → Option Single
  | .float value => some value
  | .int value => some (Floating.ofInt value.toInt)
  | .bool _ => none

def unary? : UnaryOp → Literal → Option Literal
  | .negate, .float value => some (.float value.negate)
  | .negate, .int value => (int32? (-value.toInt)).map .int
  | .not, .bool value => some (.bool !value)
  | _, _ => none

def onBools? (op : BinaryOp) (left right : Bool) : Option Literal :=
  match op with
  | .equal => some (.bool (left == right))
  | .notEqual => some (.bool (left != right))
  | .logicalAnd => some (.bool (left && right))
  | .logicalOr => some (.bool (left || right))
  | _ => none

/-- Integer division is toward zero. Neither quotient nor remainder exists where the quotient
overflows. -/
def onInts? (op : BinaryOp) (left right : Int32) : Option Literal :=
  let l := left.toInt
  let r := right.toInt
  match op with
  | .add => (int32? (l + r)).map .int
  | .subtract => (int32? (l - r)).map .int
  | .multiply => (int32? (l * r)).map .int
  | .divide => if r = 0 then none else (int32? (l.tdiv r)).map .int
  | .modulo =>
    if r = 0 then none
    else do
      let _ ← int32? (l.tdiv r)
      let remainder ← int32? (l.tmod r)
      return .int remainder
  | .equal => some (.bool (l == r))
  | .notEqual => some (.bool (l != r))
  | .less => some (.bool (l < r))
  | .lessEqual => some (.bool (l ≤ r))
  | .greater => some (.bool (r < l))
  | .greaterEqual => some (.bool (r ≤ l))
  | .logicalAnd | .logicalOr => none

def onFloats? (op : BinaryOp) (left right : Single) : Option Literal :=
  match op with
  | .add => some (.float (left.add right))
  | .subtract => some (.float (left.subtract right))
  | .multiply => some (.float (left.multiply right))
  | .divide => some (.float (left.divide right))
  | .equal => some (.bool (left.equal right))
  | .notEqual => some (.bool !(left.equal right))
  | .less => some (.bool (left.less right))
  | .lessEqual => some (.bool (left.lessEqual right))
  | .greater => some (.bool (right.less left))
  | .greaterEqual => some (.bool (right.lessEqual left))
  | .modulo | .logicalAnd | .logicalOr => none

/-- An operator on two literals. An integer beside a float becomes a float. -/
def binary? (op : BinaryOp) : Literal → Literal → Option Literal
  | .int left, .int right => onInts? op left right
  | .bool left, .bool right => onBools? op left right
  | left, right => do onFloats? op (← left.toSingle?) (← right.toSingle?)

/-- The largest float magnitude that is not converted to an integer starts here. -/
def intLimit : Single := Floating.ofInt Int32.maxValue.toInt

/-- The literal converted to a scalar kind. A float becomes an integer by dropping its fraction, if
it is finite and within range. -/
def convert? : Literal → Kind → Option Literal
  | .float value, .int =>
    if !value.isFinite || intLimit.lessEqual value.abs then none else some (.int value.toInt32)
  | .bool value, .int => some (.int (if value then 1 else 0))
  | .bool value, .float =>
    some (.float (if value then Floating.unit false else Floating.zero false))
  | .int value, .float => some (.float (Floating.ofInt value.toInt))
  | .bool value, .bool => some (.bool value)
  | .int value, .bool => some (.bool (value != 0))
  | .float value, .bool => some (.bool !(value.equal (Floating.zero false)))
  | .int value, .int => some (.int value)
  | .float value, .float => some (.float value)

/-- Whether the literal is not an infinity or a NaN. -/
def isFinite : Literal → Bool
  | .float value => value.isFinite
  | _ => true

end Literal

end ShaderAlgebra
