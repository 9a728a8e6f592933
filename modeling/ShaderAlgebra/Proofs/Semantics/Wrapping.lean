import ShaderAlgebra.Number.Constants
import ShaderAlgebra.Proofs.Semantics.Eval

/-!
# Arithmetic that wraps around

On a machine an `int` has 32 bits. Sums, differences and products wrap around, division drops the
fraction, and a few operations are not defined everywhere: division and remainder by zero or of the
least integer by minus one, the absolute value of the least integer, and `clamp` to an empty
interval. What they give there is left open as a parameter (`Undefined`).

Integers and truth values are the literals that are no floats, so a value is written down as the
literal that stands for it (`Value.ofLiteral`).
-/

namespace ShaderAlgebra

/-- What operations on 32-bit integers give where they are not defined. -/
structure Undefined where
  quotient : Int32 → Int32 → Int32
  remainder : Int32 → Int32 → Int32
  /-- The absolute value of the least integer. -/
  leastAbs : Int32
  clamped : Int32 → Int32 → Int32 → Int32

namespace Undefined

variable (u : Undefined)

/-- Whether division and remainder are defined. -/
def Divides (a b : Int32) : Prop := b ≠ 0 ∧ ¬(a = Int32.minValue ∧ b = -1)

instance (a b : Int32) : Decidable (Divides a b) :=
  inferInstanceAs (Decidable (b ≠ 0 ∧ ¬(a = Int32.minValue ∧ b = -1)))

/-- Division toward zero. -/
def divide (a b : Int32) : Int32 :=
  if Divides a b then .ofInt (a.toInt.tdiv b.toInt) else u.quotient a b

lemma divide_one (a : Int32) : u.divide a 1 = a := by
  have divides : Divides a 1 := ⟨by decide, fun least => absurd least.2 (by decide)⟩
  rw [divide, if_pos divides, show (1 : Int32).toInt = 1 from rfl, Int.tdiv_one, Int32.ofInt_toInt]

/-- The remainder of division toward zero, with the sign of the dividend. -/
def modulo (a b : Int32) : Int32 :=
  if Divides a b then .ofInt (a.toInt.tmod b.toInt) else u.remainder a b

def abs (a : Int32) : Int32 :=
  if a = Int32.minValue then u.leastAbs else if a < 0 then -a else a

def sign (a : Int32) : Int32 := if a < 0 then -1 else if a = 0 then 0 else 1

def clamp (x low high : Int32) : Int32 :=
  if low ≤ high then min (max x low) high else u.clamped x low high

end Undefined

/-- 32-bit integers that wrap around, and binary32 numbers. -/
def Arithmetic.wrapping (u : Undefined) : Arithmetic where
  Whole := Int32
  Real := Single
  whole :=
    { zero := 0
      one := 1
      negate := fun a => -a
      add := fun a b => a + b
      subtract := fun a b => a - b
      multiply := fun a b => a * b
      divide := u.divide
      modulo := u.modulo
      less := fun a b => a < b
      lessEqual := fun a b => a ≤ b
      equal := fun a b => a = b }
  real :=
    { zero := Single.zero
      one := Single.one
      negate := Floating.negate
      add := Floating.add
      subtract := Floating.subtract
      multiply := Floating.multiply
      divide := Floating.divide
      modulo := fun a b => a - b * (a / b).floor
      less := Floating.less
      lessEqual := Floating.lessEqual
      equal := Floating.equal }
  ofInt := fun n => n
  ofFloat := fun x => x
  toReal := fun n => Floating.ofInt n.toInt
  truncate := Floating.toInt32
  position := Int32.toInt

/-- The five built-in functions on integers mean what they should, wherever they are defined. -/
structure Interpretation.KnowsIntegers {u : Undefined} (I : Interpretation (.wrapping u)) :
    Prop where
  abs : ∀ a : Int32, I.function "abs" [.ofLiteral (.int a)] Ty.int = u.abs a
  sign : ∀ a : Int32, I.function "sign" [.ofLiteral (.int a)] Ty.int = Undefined.sign a
  min : ∀ a b : Int32,
    I.function "min" [.ofLiteral (.int a), .ofLiteral (.int b)] Ty.int = Min.min a b
  max : ∀ a b : Int32,
    I.function "max" [.ofLiteral (.int a), .ofLiteral (.int b)] Ty.int = Max.max a b
  clamp : ∀ x low high : Int32,
    I.function "clamp" [.ofLiteral (.int x), .ofLiteral (.int low), .ofLiteral (.int high)] Ty.int
      = u.clamp x low high

/-- The integer that a value is. -/
def Value.whole {u : Undefined} : Value (.wrapping u) → Int32
  | ⟨.scalar .int, x⟩ => x
  | _ => 0

/-- The interpretation with the given variables in which other functions give zero. -/
def Interpretation.ofReads (u : Undefined)
    (read : (name : String) → (ty : Ty) → Val (.wrapping u) ty) : Interpretation (.wrapping u) where
  read := read
  function := fun name arguments ty =>
    match ty, name, arguments.map Value.whole with
    | .scalar .int, "abs", [a] => u.abs a
    | .scalar .int, "sign", [a] => Undefined.sign a
    | .scalar .int, "min", [a, b] => (min a b : Int32)
    | .scalar .int, "max", [a, b] => (max a b : Int32)
    | .scalar .int, "clamp", [x, low, high] => u.clamp x low high
    | ty, _, _ => Value.zeroData ty
  beyond := fun _ _ ty => Value.zeroData ty

lemma Interpretation.ofReads_knowsIntegers (u : Undefined)
    (read : (name : String) → (ty : Ty) → Val (.wrapping u) ty) : (ofReads u read).KnowsIntegers :=
  ⟨fun _ => rfl, fun _ => rfl, fun _ _ => rfl, fun _ _ => rfl, fun _ _ _ => rfl⟩

/-! ## Operators on integers and truth values -/

namespace Undefined

variable (u : Undefined)

/-- What an operator gives on two integers. -/
def onInts (op : BinaryOp) (x y : Int32) : Literal :=
  match op with
  | .add => .int (x + y)
  | .subtract => .int (x - y)
  | .multiply => .int (x * y)
  | .divide => .int (u.divide x y)
  | .modulo => .int (u.modulo x y)
  | .less => .bool (x < y)
  | .lessEqual => .bool (x ≤ y)
  | .greater => .bool (y < x)
  | .greaterEqual => .bool (y ≤ x)
  | .notEqual => .bool !(decide (x = y))
  | _ => .bool (x = y)

end Undefined

/-- What an operator gives on two truth values. -/
def Literal.onBools (op : BinaryOp) (a b : Bool) : Literal :=
  match op with
  | .logicalAnd => .bool (a && b)
  | .logicalOr => .bool (a || b)
  | .notEqual => .bool !(a == b)
  | _ => .bool (a == b)

namespace Value

variable {u : Undefined}

/-- Different literals are different values. -/
lemma ofLiteral_injective {a b : Literal}
    (same : (ofLiteral a : Value (.wrapping u)) = ofLiteral b) : a = b := by
  cases a <;> cases b <;> cases same <;> rfl

lemma negate_int (x : Int32) :
    unary .negate (ofLiteral (.int x) : Value (.wrapping u)) = ofLiteral (.int (-x)) :=
  rfl

lemma not_bool (b : Bool) :
    unary .not (ofLiteral (.bool b) : Value (.wrapping u)) = ofLiteral (.bool !b) :=
  rfl

lemma binary_int {op : BinaryOp} {ty : Ty} (typed : Ty.binary? op Ty.int Ty.int = some ty)
    (x y : Int32) :
    binary op (ofLiteral (.int x) : Value (.wrapping u)) (ofLiteral (.int y))
      = ofLiteral (u.onInts op x y) := by
  cases op with
  | logicalAnd | logicalOr => cases typed
  | _ => rfl

lemma binary_bool {op : BinaryOp} {ty : Ty} (typed : Ty.binary? op Ty.bool Ty.bool = some ty)
    (a b : Bool) :
    binary op (ofLiteral (.bool a) : Value (.wrapping u)) (ofLiteral (.bool b))
      = ofLiteral (.onBools op a b) := by
  cases op with
  | equal | notEqual | logicalAnd | logicalOr => rfl
  | _ => cases typed

end Value

end ShaderAlgebra
