import Mathlib.Algebra.BigOperators.Group.Finset.Basic
import Mathlib.Algebra.DualNumber
import ShaderAlgebra.Proofs.Semantics.Floats

/-!
# Dual numbers

A dual number `a + b * ε` with `ε * ε = 0` is a rational together with how fast it changes. In dual
arithmetic a `float` is a dual number, and everything that is no `float` is as in exact arithmetic.

An interpretation becomes one of dual arithmetic (`Interpretation.dual`) once a `Tangent` says how
fast the variables change, and the functions in each of their arguments. The slope of the value of
a tree is then its derivative in the direction of the tangent, by definition and without a limit.
-/

namespace ShaderAlgebra

/-! ## The arithmetic -/

namespace Arithmetic

variable {op : BinaryOp}

/-- Unbounded integers and dual numbers. Dual numbers are compared by their standard parts, and a
quotient by a dual number whose standard part is zero does not change. -/
def dual (u : Unspecified) : Arithmetic where
  Whole := Int
  Real := DualNumber Rat
  whole := (exact u).whole
  real :=
    { zero := 0
      one := 1
      negate := fun a => -a
      add := fun a b => a + b
      subtract := fun a b => a - b
      multiply := fun a b => a * b
      divide := fun a b => if b.fst = 0 then .inl (u.realByZero a.fst) else a * b⁻¹
      modulo := fun a b => a - b * .inl (integerPart (a.fst / b.fst) : Rat)
      less := fun a b => a.fst < b.fst
      lessEqual := fun a b => a.fst ≤ b.fst
      equal := fun a b => a.fst = b.fst }
  ofInt := Int32.toInt
  ofFloat := fun x => .inl (exactFloat u x)
  toReal := fun n => .inl (n : Rat)
  truncate := fun a => integerPart a.fst
  position := fun n => n

variable {u : Unspecified}

/-- The dual number with a standard part and a slope. -/
def moving (x dx : Rat) : (dual u).Real := (.inl x + .inr dx : DualNumber Rat)

/-- The dual number that does not change. -/
def still (x : Rat) : (dual u).Real := (.inl x : DualNumber Rat)

/-- What the dual number is. -/
def standard (a : (dual u).Real) : Rat := TrivSqZeroExt.fst (R := Rat) (M := Rat) a

/-- How fast the dual number changes. -/
def slope (a : (dual u).Real) : Rat := TrivSqZeroExt.snd (R := Rat) (M := Rat) a

lemma dual_ext {a b : (dual u).Real} (stds : standard a = standard b)
    (slopes : slope a = slope b) : a = b :=
  TrivSqZeroExt.ext stds slopes

@[simp] lemma standard_moving (x dx : Rat) : standard (moving x dx : (dual u).Real) = x :=
  add_zero x

@[simp] lemma slope_moving (x dx : Rat) : slope (moving x dx : (dual u).Real) = dx :=
  zero_add dx

@[simp] lemma standard_still (x : Rat) : standard (still x : (dual u).Real) = x := rfl

@[simp] lemma slope_still (x : Rat) : slope (still x : (dual u).Real) = 0 := rfl

@[simp] lemma slope_negate (a : (dual u).Real) : slope ((dual u).real.negate a) = -slope a := rfl

/-- The standard part follows every operation. -/
lemma standard_combine (wise : Value.IsComponentWise op) (a b : (dual u).Real) :
    standard ((dual u).real.combine op a b)
      = (exact u).real.combine op (standard a) (standard b) := by
  rcases wise with rfl | rfl | rfl | rfl
  · rfl
  · rfl
  · rfl
  · show TrivSqZeroExt.fst (if standard b = 0 then _ else _) = if standard b = 0 then _ else _
    split
    · rfl
    · exact (div_eq_mul_inv (standard a) (standard b)).symm

lemma slope_add (a b : (dual u).Real) :
    slope ((dual u).real.combine .add a b) = slope a + slope b := rfl

lemma slope_subtract (a b : (dual u).Real) :
    slope ((dual u).real.combine .subtract a b) = slope a - slope b := rfl

lemma slope_multiply (a b : (dual u).Real) : slope ((dual u).real.combine .multiply a b)
      = slope a * standard b + standard a * slope b := by
  show standard a * slope b + slope a * standard b = _
  ring

lemma slope_divide {a b : (dual u).Real} (nz : standard b ≠ 0) :
    slope ((dual u).real.combine .divide a b)
      = (slope a * standard b - standard a * slope b) / (standard b * standard b) := by
  -- The quotient is the product with the inverse.
  have quot : slope ((dual u).real.combine .divide a b)
      = slope (u := u) (HMul.hMul (α := DualNumber Rat) a (Inv.inv (α := DualNumber Rat) b)) :=
    congrArg slope (if_neg nz)
  refine quot.trans ?_
  show standard a * -((standard b)⁻¹ * slope b * (standard b)⁻¹) + slope a * (standard b)⁻¹ = _
  field_simp
  ring

/-- An operation on dual numbers that do not change gives one that does not change, also where the
divisor is zero. -/
lemma still_combine (wise : Value.IsComponentWise op) (a b : (dual u).Real) :
    still (standard ((dual u).real.combine op a b))
      = (dual u).real.combine op (still (standard a)) (still (standard b)) := by
  refine dual_ext ?_ ?_
  · exact (standard_combine wise a b).trans
      (standard_combine wise (still (standard a)) (still (standard b))).symm
  · rw [slope_still]
    rcases wise with rfl | rfl | rfl | rfl
    · rw [slope_add, slope_still, slope_still, add_zero]
    · rw [slope_subtract, slope_still, slope_still, sub_zero]
    · rw [slope_multiply, slope_still, slope_still, zero_mul, mul_zero, add_zero]
    · by_cases zero : standard b = 0
      · have cst : (dual u).real.combine .divide (still (standard a)) (still (standard b))
            = still (u.realByZero (standard a)) := if_pos zero
        rw [cst, slope_still]
      · rw [slope_divide (b := still (standard b)) zero, slope_still, slope_still, zero_mul,
          mul_zero, sub_zero, zero_div]

lemma slope_combine_eq_zero (wise : Value.IsComponentWise op) {a b : (dual u).Real}
    (stillA : slope a = 0) (stillB : slope b = 0) : slope ((dual u).real.combine op a b) = 0 := by
  have same {x : (dual u).Real} (still' : slope x = 0) : x = still (standard x) :=
    dual_ext rfl (still'.trans (slope_still _).symm)
  rw [same stillA, same stillB, ← still_combine wise, slope_still]

lemma sum_exact (f : Nat → Rat) (cnt : Nat) :
    (exact u).real.sum f cnt = ∑ i ∈ Finset.range cnt, f i := by
  induction cnt with
  | zero => rfl
  | succ cnt ih =>
    rw [Finset.sum_range_succ, ← ih]
    rfl

lemma slope_sum (f : Nat → (dual u).Real) (cnt : Nat) :
    slope ((dual u).real.sum f cnt) = ∑ i ∈ Finset.range cnt, slope (f i) := by
  induction cnt with
  | zero => rfl
  | succ cnt ih =>
    rw [Finset.sum_range_succ, ← ih]
    rfl

end Arithmetic

/-! ## Values of two arithmetics -/

namespace Value

variable {A B : Arithmetic} {whole : A.Whole → B.Whole}

mutual

/-- The data with every number exchanged. -/
def mapData (whole : A.Whole → B.Whole) (real : A.Real → B.Real) : (ty : Ty) → Val A ty → Val B ty
  | .void, _ | .function .., _ | .unknown, _ => ()
  | .scalar .bool, b => b
  | .scalar .int, n => whole n
  | .scalar .float, x => real x
  | .vector _ .bool, b => b
  | .vector _ .int, n => fun i => whole (n i)
  | .vector _ .float, x => fun i => real (x i)
  | .matrix .., x => fun column row => real (x column row)
  | .array base _, x => fun i => mapData whole real base (x i)
  | .struct _ members, x => mapMembers whole real members x

def mapMembers (whole : A.Whole → B.Whole) (real : A.Real → B.Real) :
    (members : List (String × Ty)) → MemberVals A members → MemberVals B members
  | [], _ => ()
  | (_, ty) :: members, x => (mapData whole real ty x.1, mapMembers whole real members x.2)

end

/-- The value with every number exchanged. -/
def map (whole : A.Whole → B.Whole) (real : A.Real → B.Real) (v : Value A) : Value B :=
  ⟨v.ty, mapData whole real v.ty v.data⟩

lemma entrywise_map {real : A.Real → B.Real} {v : Value A} (gen : v.ty.isGenericFloat)
    : Entrywise real v (v.map whole real) := by
  obtain ⟨ty, data⟩ := v
  obtain ⟨size, rfl⟩ := Ty.isGenericFloat_iff.mp gen
  refine ⟨rfl, gen, fun row ins => ?_⟩
  cases size with
  | none => rfl
  | some size =>
    have lt : row < size.count := ins size rfl
    simp only [map, entry, component, Ty.plain, lt, dite_true]
    rfl

/-- A value that has related entries is the one with its numbers exchanged. -/
lemma Entrywise.eq_map {real : A.Real → B.Real} {v : Value A} {w : Value B}
    (rel : Entrywise real v w) : w = v.map whole real := by
  have mapped : Entrywise real v (v.map whole real) := entrywise_map rel.generic
  refine ext_entry rel.ty (rel.ty ▸ rel.generic) fun row ins => ?_
  rw [rel.ty] at ins
  rw [rel.entry row ins, mapped.entry row ins]

variable {u : Unspecified}

/-- What the value is. -/
def standard (v : Value (.dual u)) : Value (.exact u) :=
  v.map (A := .dual u) (B := .exact u) (fun n => n) Arithmetic.standard

/-- How fast the value changes. Integers and truth values do not. -/
def slope (v : Value (.dual u)) : Value (.exact u) :=
  v.map (A := .dual u) (B := .exact u) (fun _ => (0 : Int)) Arithmetic.slope

/-- Data that does not change. -/
def stillData (ty : Ty) (data : Val (.exact u) ty) : Val (.dual u) ty :=
  mapData (A := .exact u) (B := .dual u) (fun n => n) Arithmetic.still ty data

end Value

/-! ## Interpretations -/

/-- How fast the entries of the variables change, and each function in each of its arguments. -/
structure Tangent (u : Unspecified) where
  speed : (name : String) → (row : Nat) → Rat
  gain : (function : String) → (position : Nat) → (arguments : List (Value (.exact u))) → Rat

namespace Tangent

variable {u : Unspecified} (t : Tangent u)

/-- How fast the result of a function changes: the sum, over the arguments from the given position
on, of how fast the argument does times what the function gains from it. -/
def rate (function : String) (standards : List (Value (.exact u))) :
    (position : Nat) → List (Value (.dual u)) → Rat
  | _, [] => 0
  | position, v :: vs =>
    t.gain function position standards * Arithmetic.slope (v.entry 0)
      + rate function standards (position + 1) vs

end Tangent

namespace Interpretation

variable {u : Unspecified} (I : Interpretation (.exact u)) (t : Tangent u)

/-- The interpretation in dual arithmetic. Only floats and float vectors change. -/
def dual : Interpretation (.dual u) where
  read name ty :=
    match ty with
    | .scalar .float => Arithmetic.moving (I.read name (.scalar .float)) (t.speed name 0)
    | .vector size .float => fun row =>
      Arithmetic.moving (I.read name (.vector size .float) row) (t.speed name row)
    | ty => Value.stillData ty (I.read name ty)
  function name arguments ty :=
    let standards := arguments.map Value.standard
    match ty with
    | .scalar .float =>
      Arithmetic.moving (I.function name standards (.scalar .float))
        (t.rate name standards 0 arguments)
    | ty => Value.stillData ty (I.function name standards ty)
  beyond base index ty := Value.stillData ty (I.beyond base.standard index.standard ty)

/-- A variable is what it was. -/
lemma entrywise_read_dual (name : String) {ty : Ty} (gen : ty.isGenericFloat) :
    Value.Entrywise Arithmetic.standard (⟨ty, (I.dual t).read name ty⟩ : Value (.dual u))
      ⟨ty, I.read name ty⟩ := by
  obtain ⟨size, rfl⟩ := Ty.isGenericFloat_iff.mp gen
  refine ⟨rfl, gen, fun row ins => ?_⟩
  cases size with
  | none => exact (Arithmetic.standard_moving _ _).symm
  | some size =>
    have lt : row < size.count := ins size rfl
    simp only [Value.entry, Value.component, Ty.plain, lt, dite_true]
    exact (Arithmetic.standard_moving _ _).symm

/-- A variable changes as the tangent says. -/
lemma slope_read_dual (name : String) {ty : Ty} (gen : ty.isGenericFloat) {row : Nat}
    (ins : ty.HasRow row) :
    Arithmetic.slope ((⟨ty, (I.dual t).read name ty⟩ : Value (.dual u)).entry row)
      = t.speed name (if ty.isScalar then 0 else row) := by
  obtain ⟨size, rfl⟩ := Ty.isGenericFloat_iff.mp gen
  cases size with
  | none => exact Arithmetic.slope_moving _ _
  | some size =>
    have lt : row < size.count := ins size rfl
    simp only [Value.entry, Value.component, Ty.plain, lt, dite_true]
    exact Arithmetic.slope_moving _ _

end Interpretation

namespace Value

variable {u : Unspecified}

lemma part_slope {v : Value (.dual u)} (gen : v.ty.isGenericFloat) {row : Nat}
    (ins : v.ty.HasRow row) : v.slope.part row = Arithmetic.slope (v.entry row) :=
  (entrywise_map gen).entry row ins

lemma part_standard {v : Value (.dual u)} (gen : v.ty.isGenericFloat) {row : Nat}
    (ins : v.ty.HasRow row) : v.standard.part row = Arithmetic.standard (v.entry row) :=
  (entrywise_map gen).entry row ins

end Value

end ShaderAlgebra
