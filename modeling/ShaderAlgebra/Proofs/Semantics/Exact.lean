import ShaderAlgebra.Proofs.Number.Exactness
import ShaderAlgebra.Proofs.Semantics.Eval

/-!
# Exact arithmetic

In exact arithmetic an `int` is an unbounded integer, whose division drops the fraction, and a
`float` is a rational. A finite literal stands for what it is worth. What is left open is left open
as a parameter (`Unspecified`): division by zero, and the numbers that are not finite.

Scalars and vectors of numbers are compared by `Value.part`, a component as a rational, whether the
value is an integer or not. Two such values of one type are equal if their parts are (`ext_part`),
and addition, subtraction and multiplication of values are those of their parts (`part_binary`),
with a scalar spread over the parts of a vector and an integer promoted on the way. So an identity
between values is an identity between rationals.
-/

namespace ShaderAlgebra

variable {size : Option Dim} {right left ty : Ty} {kind : Kind}

/-! ## The arithmetic -/

/-- What exact arithmetic leaves open. -/
structure Unspecified where
  wholeByZero : Int → Int
  remainderByZero : Int → Int
  realByZero : Rat → Rat
  /-- What the positive infinity stands for. The negative one stands for its negation. -/
  infinity : Rat
  nan : Rat

/-- The integer part of a rational: its fraction is dropped. -/
def integerPart (q : Rat) : Int := if q < 0 then -(-q).floor else q.floor

/-- What a `float` literal stands for. -/
def Arithmetic.exactFloat (u : Unspecified) (x : Single) : Rat :=
  if x.isFinite then x.value
  else if x.isNaN then u.nan
  else if x.negative then -u.infinity
  else u.infinity

/-- Unbounded integers and rationals. -/
def Arithmetic.exact (u : Unspecified) : Arithmetic where
  Whole := Int
  Real := Rat
  whole :=
    { zero := 0
      one := 1
      negate := fun a => -a
      add := fun a b => a + b
      subtract := fun a b => a - b
      multiply := fun a b => a * b
      divide := fun a b => if b = 0 then u.wholeByZero a else a.tdiv b
      modulo := fun a b => if b = 0 then u.remainderByZero a else a.tmod b
      less := fun a b => a < b
      lessEqual := fun a b => a ≤ b
      equal := fun a b => a = b }
  real :=
    { zero := 0
      one := 1
      negate := fun a => -a
      add := fun a b => a + b
      subtract := fun a b => a - b
      multiply := fun a b => a * b
      divide := fun a b => if b = 0 then u.realByZero a else a / b
      modulo := fun a b => a - b * integerPart (a / b)
      less := fun a b => a < b
      lessEqual := fun a b => a ≤ b
      equal := fun a b => a = b }
  ofInt := Int32.toInt
  ofFloat := exactFloat u
  toReal := fun n => n
  truncate := integerPart
  position := fun n => n

/-! ## Numeric scalars and vectors -/

namespace Ty

/-- A scalar, or a vector if a size is given. -/
def plain (size : Option Dim) (kind : Kind) : Ty :=
  match size with
  | none => .scalar kind
  | some size => .vector size kind

/-- Whether the type is a scalar or vector of numbers. -/
def IsPlain (ty : Ty) : Prop := ∃ size kind, ty = plain size kind ∧ kind.isNumeric = true

/-- Whether a vector has a component in a row. A scalar has one in every row. -/
def HasRow (ty : Ty) (row : Nat) : Prop := ∀ size ∈ ty.size?, row < size.count

/-- The type of a component-wise operation on scalars and vectors. -/
lemma componentWise?_plain_eq (sizeL sizeR : Option Dim) (a b : Kind) :
    componentWise? (plain sizeL a) (plain sizeR b) = if sizeL = none ∨ sizeR = none ∨ sizeL = sizeR
      then (a.unify? b).map (plain (sizeL.or sizeR)) else none := by
  cases sizeL <;> cases sizeR <;> simp [plain, componentWise?, Kind.unify?_comm] <;> rfl

/-- A component-wise operation without matrices: its operands and its result are scalars and vectors
of numbers, and the result has the size and the kind in which the operands meet. -/
lemma componentWise?_plain (typed : componentWise? left right = some ty)
    (nmL : left.isMatrix = false) (nmR : right.isMatrix = false) :
    ∃ sizeL sizeR a b kind, left = plain sizeL a ∧ right = plain sizeR b
      ∧ ty = plain (sizeL.or sizeR) kind ∧ a.unify? b = some kind
      ∧ (sizeL = none ∨ sizeR = none ∨ sizeL = sizeR) := by
  obtain ⟨sizeL, a, rfl⟩ : ∃ size kind, left = plain size kind := by
    cases left with
    | scalar kind => exact ⟨none, kind, rfl⟩
    | vector size kind => exact ⟨some size, kind, rfl⟩
    | matrix => cases nmL
    | _ => cases right <;> cases typed
  obtain ⟨sizeR, b, rfl⟩ : ∃ size kind, right = plain size kind := by
    cases right with
    | scalar kind => exact ⟨none, kind, rfl⟩
    | vector size kind => exact ⟨some size, kind, rfl⟩
    | matrix => cases nmR
    | _ => cases sizeL <;> cases typed
  rw [componentWise?_plain_eq, Option.ite_none_right_eq_some] at typed
  obtain ⟨sizes, met⟩ := typed
  obtain ⟨kind, unified, rfl⟩ := Option.map_eq_some_iff.mp met
  exact ⟨sizeL, sizeR, a, b, kind, rfl, rfl, rfl, unified, sizes⟩

lemma hasRow_zero (ty : Ty) : ty.HasRow 0 := by
  intro size _
  cases size <;> decide

lemma hasRow_of_lt {row : Nat} (lt : row < ty.componentCount?.getD 0) : ty.HasRow row := by
  intro size found
  cases ty <;> simp_all [size?, componentCount?]

lemma isMatrix_plain (size : Option Dim) (kind : Kind) : (plain size kind).isMatrix = false := by
  cases size <;> rfl

lemma plain_inj {oth : Option Dim} {kind' : Kind} (same : plain size kind = plain oth kind') :
    size = oth ∧ kind = kind' := by
  cases size <;> cases oth <;> simp_all [plain]

lemma size?_plain (size : Option Dim) (kind : Kind) : (plain size kind).size? = size := by
  cases size <;> rfl

lemma isPlain_plain (num : kind.isNumeric) : (plain size kind).IsPlain := ⟨size, kind, rfl, num⟩

/-- A type converts to itself, and a scalar or vector of integers to one of floats. -/
lemma convertsTo_iff {src tgt : Ty} : src.convertsTo tgt ↔
      src = tgt ∨ ∃ size, src = plain size .int ∧ tgt = plain size .float := by
  simp only [convertsTo, Bool.or_eq_true, decide_eq_true_eq]
  refine or_congr_right ⟨fun conv => ?_, ?_⟩
  · split at conv
    · exact ⟨none, rfl, rfl⟩
    · next m n =>
      obtain rfl : m = n := by simpa using conv
      exact ⟨some m, rfl, rfl⟩
    · cases conv
  · rintro ⟨size, rfl, rfl⟩
    cases size <;> simp [plain]

lemma IsPlain.isNumeric (plain : ty.IsPlain) : ty.kind?.any Kind.isNumeric := by
  obtain ⟨size, kind, rfl, num⟩ := plain
  cases size <;> exact num

lemma isPlain_of_numeric (nm : ty.isMatrix = false)
    (num : ty.kind?.any Kind.isNumeric) : ty.IsPlain := by
  cases ty with
  | scalar kind => exact ⟨none, kind, rfl, num⟩
  | vector size kind => exact ⟨some size, kind, rfl, num⟩
  | matrix => cases nm
  | _ => cases num

end Ty

lemma Kind.isNumeric_of_unify? {a b : Kind} (unified : a.unify? b = some kind) :
    a.isNumeric ∧ b.isNumeric ∧ kind.isNumeric := by
  cases a <;> cases b <;> simp_all [Kind.unify?] <;> subst unified <;> simp [Kind.isNumeric]

/-- The types of a component-wise operation without matrices are plain, and the operands have the
rows that the result has. -/
lemma Ty.componentWise?_isPlain (typed : componentWise? left right = some ty)
    (nmL : left.isMatrix = false) (nmR : right.isMatrix = false) :
    left.IsPlain ∧ right.IsPlain ∧ ty.IsPlain
      ∧ ∀ row, ty.HasRow row → left.HasRow row ∧ right.HasRow row := by
  obtain ⟨sizeL, sizeR, a, b, kind, rfl, rfl, rfl, unified, sizes⟩ :=
    componentWise?_plain typed nmL nmR
  obtain ⟨numericA, numericB, num⟩ := Kind.isNumeric_of_unify? unified
  refine ⟨isPlain_plain numericA, isPlain_plain numericB, isPlain_plain num, ?_⟩
  intro row ins
  simp only [HasRow, size?_plain] at ins ⊢
  rcases sizes with rfl | rfl | rfl <;> simp_all

/-- An operator on operands that are not matrices does not give one. -/
lemma Ty.isMatrix_binary? {op : BinaryOp} (typed : binary? op left right = some ty)
    (nmL : left.isMatrix = false) (nmR : right.isMatrix = false) : ty.isMatrix = false := by
  have wise {ty : Ty} (typed : componentWise? left right = some ty) : ty.isMatrix = false := by
    obtain ⟨-, -, ⟨size, kind, rfl, -⟩, -⟩ := componentWise?_isPlain typed nmL nmR
    exact isMatrix_plain size kind
  cases op with
  | add | subtract | divide => exact wise typed
  | multiply =>
    simp only [binary?, nmL, nmR] at typed
    exact wise typed
  | modulo => exact wise (Option.filter_eq_some_iff.mp typed).1
  | _ =>
    obtain rfl := binary?_eq_bool rfl typed
    rfl

/-! ## Parts -/

namespace Value

variable {u : Unspecified} {v w : Value (.exact u)} {kind : Kind} {row : Nat} {op : BinaryOp}
  {ty : Ty}

/-- The component in a row, as a rational. -/
def part (v : Value (.exact u)) (row : Nat) : Rat := v.component .float 0 row

/-- The component in a row of a column, as a rational. -/
def cell (v : Value (.exact u)) (column row : Nat) : Rat := v.component .float column row

/-- A component in the kind that an operation is calculated in is the same as a rational. -/
lemma convert_component {own : Kind} (typed : v.ty = .plain size own)
    (kinds : kind = .float ∨ (own = .int ∧ kind = .int)) (row : Nat) :
    (Arithmetic.exact u).convert kind .float (v.component kind 0 row) = v.part row := by
  rcases kinds with rfl | ⟨rfl, rfl⟩
  · rfl
  obtain ⟨ty, data⟩ := v
  subst typed
  cases size with
  | none => rfl
  | some size =>
    simp only [Ty.plain, part, component]
    split
    · rfl
    · exact (Int.cast_zero : ((0 : Int) : Rat) = 0)

/-- Two scalars or vectors of numbers of one type are equal if their parts are. -/
lemma ext_part (same : v.ty = w.ty) (plain : v.ty.IsPlain)
    (parts : ∀ row, v.ty.HasRow row → v.part row = w.part row) : v = w := by
  obtain ⟨ty, x⟩ := v
  obtain ⟨ty', y⟩ := w
  obtain rfl : ty = ty' := same
  obtain ⟨size, kind, rfl, num⟩ := plain
  cases size with
  | none =>
    have fst := parts 0 (by simp [Ty.HasRow, Ty.plain, Ty.size?])
    cases kind with
    | bool => cases num
    | int => exact congrArg (Value.mk _) (Int.cast_injective (α := Rat) fst)
    | float => exact congrArg (Value.mk _) fst
  | some size =>
    have rows (i : Fin size.count) := parts i (by simp [Ty.HasRow, Ty.plain, Ty.size?])
    simp only [part, Ty.plain, component, Fin.is_lt, dite_true, Fin.eta] at rows
    cases kind with
    | bool => cases num
    | int => exact congrArg (Value.mk _) (funext fun i => Int.cast_injective (α := Rat) (rows i))
    | float => exact congrArg (Value.mk _) (funext rows)

/-- The parts of a value that is built component by component. -/
lemma part_build {comp : (kind : Kind) → (col row : Nat) → kind.Carrier (.exact u)}
    (ins : (Ty.plain size kind).HasRow row)
    (spread : size = none → comp kind 0 0 = comp kind 0 row) :
    (build (.plain size kind) comp).part row
      = (Arithmetic.exact u).convert kind .float (comp kind 0 row) := by
  cases size with
  | none =>
    rw [← spread rfl]
    rfl
  | some size =>
    have lt : row < size.count := ins size rfl
    simp only [part, build, Ty.plain, Value.component, lt, dite_true]
    rfl

/-- A scalar has the same component in every row. -/
lemma component_spread {A : Arithmetic} {v : Value A} {own : Kind} (typed : v.ty = .plain none own)
    (row : Nat) : v.component kind 0 0 = v.component kind 0 row := by
  obtain ⟨ty, data⟩ := v
  subst typed
  rfl

/-- With the right operands that are allowed, the two calculations of an operator, with integers and
with rationals, are one function of rationals. -/
structure Calculates (u : Unspecified) (op : BinaryOp) (allowed : Rat → Prop)
    (f : Rat → Rat → Rat) : Prop where
  whole : ∀ a b : Int, allowed b →
    (Arithmetic.exact u).toReal ((Arithmetic.exact u).whole.combine op a b) = f a b
  real : ∀ a b : Rat, allowed b → (Arithmetic.exact u).real.combine op a b = f a b

lemma calculates_add : Calculates u .add (fun _ => True) fun a b => a + b :=
  ⟨fun a b _ => Int.cast_add (R := Rat) a b, fun _ _ _ => rfl⟩

lemma calculates_subtract : Calculates u .subtract (fun _ => True) fun a b => a - b :=
  ⟨fun a b _ => Int.cast_sub (R := Rat) a b, fun _ _ _ => rfl⟩

lemma calculates_multiply : Calculates u .multiply (fun _ => True) fun a b => a * b :=
  ⟨fun a b _ => Int.cast_mul (α := Rat) a b, fun _ _ _ => rfl⟩

/-- Division by one does nothing, with the fraction dropped or not. -/
lemma calculates_divide_one : Calculates u .divide (fun b => b = 1) fun a _ => a := by
  refine ⟨fun a b one => ?_, fun a b one => ?_⟩
  · obtain rfl : b = 1 := by exact_mod_cast one
    exact congrArg (Int.cast (R := Rat)) (Int.tdiv_one a)
  · subst one
    change (if (1 : Rat) = 0 then u.realByZero a else a / 1) = a
    rw [if_neg one_ne_zero, div_one]

/-- The parts of a component-wise operation are calculated from the parts of the operands. -/
lemma part_arithmetic {allowed : Rat → Prop} {f : Rat → Rat → Rat}
    (calcs : Calculates u op allowed f) (typed : Ty.componentWise? v.ty w.ty = some ty)
    (nmV : v.ty.isMatrix = false) (nmW : w.ty.isMatrix = false) (ins : ty.HasRow row)
    (right : allowed (w.part row)) :
    (arithmetic op ty v w).part row = f (v.part row) (w.part row) := by
  obtain ⟨sizeV, sizeW, a, b, kind, tyV, tyW, rfl, unified, -⟩ :=
    Ty.componentWise?_plain typed nmV nmW
  rw [arithmetic, part_build ins]
  · have kindV : kind = .float ∨ (a = .int ∧ kind = .int) := by
      cases a <;> cases b <;> simp_all [Kind.unify?]
    have kindW : kind = .float ∨ (b = .int ∧ kind = .int) := by
      cases a <;> cases b <;> simp_all [Kind.unify?]
    rw [← convert_component tyW kindW] at right
    rw [← convert_component tyV kindV, ← convert_component tyW kindW]
    rcases kindV with rfl | ⟨-, rfl⟩
    · exact calcs.real _ _ right
    · exact calcs.whole _ _ right
  · intro scal
    obtain ⟨rfl, rfl⟩ : sizeV = none ∧ sizeW = none := by
      cases sizeV <;> cases sizeW <;> simp_all
    rw [component_spread tyV row, component_spread tyW row]

/-- A product without matrices is component-wise. -/
lemma product_eq_arithmetic {A : Arithmetic} {v w : Value A} (nmV : v.ty.isMatrix = false)
    (nmW : w.ty.isMatrix = false) : product ty v w = arithmetic .multiply ty v w := by
  unfold product
  split <;> simp_all [Ty.isMatrix]

/-- The operators that are calculated component by component where no matrix is involved. -/
def IsComponentWise (op : BinaryOp) : Prop :=
  op = .add ∨ op = .subtract ∨ op = .multiply ∨ op = .divide

lemma IsComponentWise.add : IsComponentWise .add := .inl rfl

lemma IsComponentWise.subtract : IsComponentWise .subtract := .inr (.inl rfl)

lemma IsComponentWise.multiply : IsComponentWise .multiply := .inr (.inr (.inl rfl))

lemma IsComponentWise.divide : IsComponentWise .divide := .inr (.inr (.inr rfl))

lemma binary?_eq_componentWise? (wise : IsComponentWise op) (nmL : left.isMatrix = false)
    (nmR : right.isMatrix = false) : Ty.binary? op left right = Ty.componentWise? left right := by
  rcases wise with rfl | rfl | rfl | rfl <;> simp [Ty.binary?, nmL, nmR]

/-- The parts of an operation without matrices. -/
lemma part_binary {allowed : Rat → Prop} {f : Rat → Rat → Rat} (wise : IsComponentWise op)
    (calcs : Calculates u op allowed f) (typed : Ty.binary? op v.ty w.ty = some ty)
    (nmV : v.ty.isMatrix = false) (nmW : w.ty.isMatrix = false) (ins : ty.HasRow row)
    (right : allowed (w.part row)) : (binary op v w).part row = f (v.part row) (w.part row) := by
  have componentWise := typed
  rw [binary?_eq_componentWise? wise nmV nmW] at componentWise
  rw [← part_arithmetic calcs componentWise nmV nmW ins right]
  rcases wise with rfl | rfl | rfl | rfl <;> simp only [binary, typed]
  rw [product_eq_arithmetic nmV nmW]

/-- The parts of a negation. -/
lemma part_negate (plain : v.ty.IsPlain) (ins : v.ty.HasRow row) :
    (unary .negate v).part row = -v.part row := by
  obtain ⟨size, kind, typed, num⟩ := plain
  have res : Ty.unary? .negate v.ty = some (.plain size kind) := by
    rw [typed]
    cases size <;> simp [Ty.unary?, Ty.plain, Ty.kind?, num]
  simp only [unary, res]
  rw [typed] at ins
  rw [part_build ins]
  · have kinds : kind = .float ∨ (kind = .int ∧ kind = .int) := by
      cases kind <;> simp_all [Kind.isNumeric]
    rw [← convert_component typed kinds]
    rcases kinds with rfl | ⟨rfl, -⟩
    · rfl
    · exact Int.cast_neg (R := Rat) _
  · rintro rfl
    rw [component_spread typed row]

/-! ## Values filled with one number -/

/-- Whether every component is the given number. -/
def IsFilled (v : Value (.exact u)) (q : Rat) : Prop := ∀ row, v.ty.HasRow row → v.part row = q

/-- A filled scalar or vector is determined by its type and its number. -/
lemma IsFilled.unique {q : Rat} (filledV : v.IsFilled q) (filledW : w.IsFilled q)
    (same : v.ty = w.ty) (plain : v.ty.IsPlain) : v = w := by
  refine ext_part same plain fun row ins => ?_
  rw [filledV row ins, filledW row (same ▸ ins)]

end Value

namespace Arithmetic

lemma integerPart_intCast (i : Int) : integerPart (i : Rat) = i := by
  unfold integerPart
  split
  · rw [← Int.cast_neg, Rat.floor_intCast, Int.neg_neg]
  · exact Rat.floor_intCast i

/-- A literal that is worth an integer, as a rational. -/
def worth? : Literal → Option Rat
  | .int n => some n.toInt
  | .float x => if x.isFinite then some x.value else none
  | .bool _ => none

/-- A numeric literal is filled with its worth. -/
lemma isFilled_ofLiteral {u : Unspecified} {val : Literal} {q : Rat} (worth : worth? val = some q) :
    (Value.ofLiteral val : Value (.exact u)).IsFilled q := by
  intro row _
  cases val with
  | bool b => cases worth
  | int n => exact Option.some.inj worth
  | float x =>
    simp only [worth?] at worth
    split at worth
    · next finite =>
      refine Eq.trans ?_ (Option.some.inj worth)
      exact if_pos finite
    · cases worth

end Arithmetic

end ShaderAlgebra
