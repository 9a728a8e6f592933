import ShaderAlgebra.Calculus.Catalogue
import ShaderAlgebra.Proofs.Semantics.Floats
import ShaderAlgebra.Proofs.Typing.Builtins

/-!
# Types of derivatives

The derivative of a scalar or vector has float components, and the size of the value or, if that is
a scalar, the size of the variable (`Ty.derivative?_plain`). An operation on such a type and a type
that spreads over it (`Ty.Spreads`) gives it back, so the factors that a rule multiplies a
derivative by do not change its type.

Matrices have a derivative with respect to a scalar only, which is a matrix of the same size
(`Ty.derivative?_matrix`).
-/

namespace ShaderAlgebra

open Value (IsComponentWise)

namespace Ty

variable {x y g t : Ty} {op : BinaryOp} {size a : Option Dim} {kind : Kind}

/-! ## Spreading -/

/-- A number or vector of numbers that a float or float vector takes beside it in an operation. -/
def Spreads (x g : Ty) : Prop :=
  ∃ small large kind, x = plain small kind ∧ kind.isNumeric = true ∧ g = plain large .float
    ∧ (small = none ∨ small = large)

lemma spreads_plain (num : kind.isNumeric) : Spreads (plain size kind) (plain size .float) :=
  ⟨size, size, kind, rfl, num, rfl, .inr rfl⟩

lemma spreads_scalar (num : kind.isNumeric) (size : Option Dim) :
    Spreads (.scalar kind) (plain size .float) :=
  ⟨none, size, kind, rfl, num, rfl, .inl rfl⟩

/-- The types of an operation on scalars and vectors. -/
lemma binary?_plain (wise : IsComponentWise op) {sizeL sizeR : Option Dim} {a b : Kind}
    (typed : binary? op (plain sizeL a) (plain sizeR b) = some t) :
    ∃ kind, t = plain (sizeL.or sizeR) kind ∧ a.unify? b = some kind
      ∧ (sizeL = none ∨ sizeR = none ∨ sizeL = sizeR) := by
  rw [Value.binary?_eq_componentWise? wise (isMatrix_plain _ _) (isMatrix_plain _ _)] at typed
  obtain ⟨sizeL', sizeR', a', b', kind, left, right, rfl, unified, sizes⟩ :=
    componentWise?_plain typed (isMatrix_plain _ _) (isMatrix_plain _ _)
  obtain ⟨rfl, rfl⟩ := plain_inj left
  obtain ⟨rfl, rfl⟩ := plain_inj right
  exact ⟨kind, rfl, unified, sizes⟩

lemma eq_float_of_unify? {a b : Kind} (unified : a.unify? b = some kind)
    (float : a = .float ∨ b = .float) : kind = .float := by
  cases a <;> cases b <;> simp_all [Kind.unify?]

namespace Spreads

/-- An operator gives the wider type, in either order. -/
lemma result_eq (spreads : Spreads x g) (wise : IsComponentWise op)
    (typed : binary? op x g = some t ∨ binary? op g x = some t) : t = g := by
  obtain ⟨small, large, kind, rfl, -, rfl, sizes⟩ := spreads
  rcases typed with typed | typed <;> obtain ⟨_, rfl, unified, -⟩ := binary?_plain wise typed
  · obtain rfl := eq_float_of_unify? unified (.inr rfl)
    rcases sizes with rfl | rfl <;> simp
  · obtain rfl := eq_float_of_unify? unified (.inl rfl)
    rcases sizes with rfl | rfl <;> simp

lemma trans_plain {larger : Option Dim} (spreads : Spreads x (plain size .float))
    (fits : size = none ∨ size = larger) : Spreads x (plain larger .float) := by
  obtain ⟨small, large, kind, rfl, num, same, sizes⟩ := spreads
  obtain ⟨rfl, -⟩ := plain_inj same
  refine ⟨small, larger, kind, rfl, num, rfl, ?_⟩
  rcases sizes with rfl | rfl
  · exact .inl rfl
  · exact fits

end Spreads

/-! ## Derivatives -/

/-- The derivative of a scalar or vector. -/
lemma derivative?_plain : (plain size kind).derivative? (plain a .float) = some t ↔
      (size = none ∨ a = none ∨ size = a) ∧ t = plain (size.or a) .float := by
  cases size <;> cases a <;>
    simp [plain, derivative?, isMatrix, withKind?, vec, float, eq_comm]

/-- The kind of the components does not count. -/
lemma derivative?_kind {kind' : Kind} :
    (plain size kind).derivative? (plain a .float) = (plain size kind').derivative? (plain a .float) := by
  ext t
  rw [derivative?_plain, derivative?_plain]

lemma derivative?_scalar :
    (scalar kind).derivative? (plain a .float) = some t ↔ t = plain a .float := by
  have scalar := @derivative?_plain t none a kind
  simpa [plain] using scalar

lemma derivative?_vector {rows : Dim} :
    (vector rows kind).derivative? .float = some t ↔ t = vec rows := by
  simp [derivative?, isMatrix, withKind?, float, eq_comm]

/-- A matrix has a derivative by a float only, of its own type. -/
lemma derivative?_matrix {cols rows : Dim} :
    (matrix cols rows).derivative? (plain a .float) = some t ↔ a = none ∧ t = matrix cols rows := by
  cases a <;> simp [plain, derivative?, isMatrix, eq_comm]

/-- What is differentiated by is a float or a float vector. -/
lemma exists_plain_of_derivative? (typed : x.derivative? y = some t) :
    ∃ size, y = plain size .float := by
  have oth {y : Ty} (notFloat : y.isGenericFloat = false) : x.derivative? y = none := by
    cases y with
    | scalar kind | vector size kind =>
      cases kind with
      | float => cases notFloat
      | _ => cases x <;> rfl
    | _ => cases x <;> rfl
  cases gen : y.isGenericFloat with
  | true => exact isGenericFloat_iff.mp gen
  | false =>
    rw [oth gen] at typed
    cases typed

/-- What has a derivative is a scalar, a vector, or a matrix by a scalar. -/
lemma cases_of_derivative? (typed : x.derivative? (plain a .float) = some t) :
    (∃ size kind, x = plain size kind ∧ (size = none ∨ a = none ∨ size = a)
        ∧ t = plain (size.or a) .float)
      ∨ ∃ cols rows, x = matrix cols rows ∧ a = none ∧ t = matrix cols rows := by
  cases x with
  | scalar kind => exact .inl ⟨none, kind, rfl, derivative?_plain.mp typed⟩
  | vector size kind => exact .inl ⟨some size, kind, rfl, derivative?_plain.mp typed⟩
  | matrix cols rows => exact .inr ⟨cols, rows, rfl, derivative?_matrix.mp typed⟩
  | _ => cases typed

/-! ## Operations with matrices -/

/-- The types of an operation in which a matrix takes part. -/
inductive MatrixOperation : BinaryOp → Ty → Ty → Ty → Prop
  | scaledLeft {op : BinaryOp} {kind : Kind} {columns rows : Dim} (numeric : kind.isNumeric = true) :
    MatrixOperation op (scalar kind) (matrix columns rows) (matrix columns rows)
  | scaledRight {op : BinaryOp} {kind : Kind} {columns rows : Dim}
    (numeric : kind.isNumeric = true) :
    MatrixOperation op (matrix columns rows) (scalar kind) (matrix columns rows)
  | componentWise {op : BinaryOp} {columns rows : Dim} (other : op ≠ .multiply) :
    MatrixOperation op (matrix columns rows) (matrix columns rows) (matrix columns rows)
  | product {columns rows others : Dim} :
    MatrixOperation .multiply (matrix columns rows) (matrix others columns) (matrix others rows)
  | applied {kind : Kind} {columns rows : Dim} (numeric : kind.isNumeric = true) :
    MatrixOperation .multiply (matrix columns rows) (vector columns kind) (vec rows)
  | transposed {kind : Kind} {columns rows : Dim} (numeric : kind.isNumeric = true) :
    MatrixOperation .multiply (vector rows kind) (matrix columns rows) (vec columns)

lemma MatrixOperation.of_scaledMatrix? (typed : scaledMatrix? x y = some t) :
    MatrixOperation op x y t := by
  unfold scaledMatrix? at typed
  split at typed
  · obtain ⟨num, ⟨⟩⟩ := Option.ite_none_right_eq_some.mp typed
    exact .scaledRight num
  · obtain ⟨num, ⟨⟩⟩ := Option.ite_none_right_eq_some.mp typed
    exact .scaledLeft num
  · cases typed

lemma MatrixOperation.of_linearProduct? (typed : linearProduct? x y = some t) :
    MatrixOperation .multiply x y t := by
  unfold linearProduct? at typed
  split at typed
  · obtain ⟨⟨rfl, num⟩, ⟨⟩⟩ := Option.ite_none_right_eq_some.mp typed
    exact .applied num
  · obtain ⟨⟨rfl, num⟩, ⟨⟩⟩ := Option.ite_none_right_eq_some.mp typed
    exact .transposed num
  · obtain ⟨rfl, ⟨⟩⟩ := Option.ite_none_right_eq_some.mp typed
    exact .product
  · cases typed

lemma matrixOperation (wise : IsComponentWise op) (someMatrix : x.isMatrix ∨ y.isMatrix)
    (typed : binary? op x y = some t) : MatrixOperation op x y t := by
  by_cases product : op = .multiply
  · subst product
    rw [binary?, if_pos (by simpa using someMatrix), Option.or_eq_some_iff] at typed
    rcases typed with linear | ⟨-, scaled⟩
    · exact .of_linearProduct? linear
    · exact .of_scaledMatrix? scaled
  · have typed : componentWise? x y = some t := by
      rcases wise with rfl | rfl | rfl | rfl
      case inr.inr.inl => exact absurd rfl product
      all_goals exact typed
    unfold componentWise? at typed
    split at typed
    case h_5 =>
      obtain ⟨⟨rfl, rfl⟩, ⟨⟩⟩ := Option.ite_none_right_eq_some.mp typed
      exact .componentWise product
    case h_6 => exact .of_scaledMatrix? typed
    all_goals simp [isMatrix] at someMatrix

/-- What an operation gives has a matrix in it, or is one of scalars and vectors. -/
lemma cases_of_binary? (wise : IsComponentWise op) (typed : binary? op x y = some t) :
    MatrixOperation op x y t ∨ ∃ sizeL sizeR a b kind, x = plain sizeL a ∧ y = plain sizeR b
        ∧ t = plain (sizeL.or sizeR) kind
        ∧ (sizeL = none ∨ sizeR = none ∨ sizeL = sizeR) := by
  by_cases someMatrix : x.isMatrix ∨ y.isMatrix
  · exact .inl (matrixOperation wise someMatrix typed)
  · right
    obtain ⟨noMatrixX, noMatrixY⟩ : x.isMatrix = false ∧ y.isMatrix = false := by
      simpa using someMatrix
    rw [Value.binary?_eq_componentWise? wise noMatrixX noMatrixY] at typed
    obtain ⟨sizeL, sizeR, a, b, kind, rfl, rfl, rfl, -, sizes⟩ :=
      componentWise?_plain typed noMatrixX noMatrixY
    exact ⟨sizeL, sizeR, a, b, kind, rfl, rfl, rfl, sizes⟩

/-! ## Derivatives of operations -/

/-- The type of an operand or of its derivative. A matrix has derivatives by scalars only. -/
def IsMoved (a : Option Dim) (x g : Ty) : Prop :=
  x.derivative? (plain a .float) = some g ∨ g = x ∧ (x.isMatrix = true → a = none)

namespace IsMoved

lemma matrix {cols rows : Dim} (moved : IsMoved a (matrix cols rows) g) :
    a = none ∧ g = .matrix cols rows := by
  rcases moved with der | ⟨rfl, byScalar⟩
  · exact derivative?_matrix.mp der
  · exact ⟨byScalar rfl, rfl⟩

lemma plain (size : Option Dim) (moved : IsMoved a (plain size kind) g) :
    ∃ size' kind', g = .plain size' kind'
      ∧ (size' = size ∨ (size = none ∨ a = none ∨ size = a) ∧ size' = size.or a) := by
  rcases moved with der | ⟨rfl, -⟩
  · obtain ⟨fits, rfl⟩ := derivative?_plain.mp der
    exact ⟨_, _, rfl, .inr ⟨fits, rfl⟩⟩
  · exact ⟨size, kind, rfl, .inl rfl⟩

lemma alike (size : Option Dim) (moved : IsMoved none (.plain size kind) g) :
    ∃ kind', g = .plain size kind' := by
  obtain ⟨size', kind', rfl, sizes⟩ := moved.plain
  obtain rfl : size' = size := by simpa using sizes
  exact ⟨kind', rfl⟩

end IsMoved

/-- The derivative of an operation has the type of the operation, or of the product, on derivatives
of operands, or on the derivative of one operand and the other one. -/
lemma derivative?_operation {op' : BinaryOp} {dx dy t' : Ty} (wise : IsComponentWise op)
    (wise' : IsComponentWise op') (same : op' = op ∨ op' = .multiply)
    (typed : binary? op x y = some t) (left : IsMoved a x dx) (right : IsMoved a y dy)
    (der : x.derivative? (plain a .float) = some dx ∨ y.derivative? (plain a .float) = some dy)
    (built : binary? op' dx dy = some t') : t.derivative? (plain a .float) = some t' := by
  rcases cases_of_binary? wise typed with oper | ⟨s, s', k, k', kind, rfl, rfl, rfl, sizes⟩
  · cases oper with
    | scaledLeft =>
      obtain ⟨rfl, rfl⟩ := right.matrix
      obtain ⟨_, rfl⟩ := left.alike none
      cases matrixOperation wise' (.inr rfl) built
      exact derivative?_matrix.mpr ⟨rfl, rfl⟩
    | scaledRight =>
      obtain ⟨rfl, rfl⟩ := left.matrix
      obtain ⟨_, rfl⟩ := right.alike none
      cases matrixOperation wise' (.inl rfl) built
      exact derivative?_matrix.mpr ⟨rfl, rfl⟩
    | componentWise =>
      obtain ⟨rfl, rfl⟩ := left.matrix
      obtain ⟨-, rfl⟩ := right.matrix
      cases matrixOperation wise' (.inl rfl) built <;> exact derivative?_matrix.mpr ⟨rfl, rfl⟩
    | product =>
      obtain ⟨rfl, rfl⟩ := left.matrix
      obtain ⟨-, rfl⟩ := right.matrix
      obtain rfl := same.elim id id
      obtain rfl := Option.some.inj (typed.symm.trans built)
      exact derivative?_matrix.mpr ⟨rfl, rfl⟩
    | applied =>
      obtain ⟨rfl, rfl⟩ := left.matrix
      obtain ⟨_, rfl⟩ := right.alike (some _)
      cases matrixOperation wise' (.inl rfl) built
      exact derivative?_vector.mpr rfl
    | transposed =>
      obtain ⟨rfl, rfl⟩ := right.matrix
      obtain ⟨_, rfl⟩ := left.alike (some _)
      cases matrixOperation wise' (.inr rfl) built
      exact derivative?_vector.mpr rfl
  · obtain ⟨u, m, rfl, sizesX⟩ := left.plain
    obtain ⟨v, n, rfl, sizesY⟩ := right.plain
    obtain ⟨_, rfl, unified, fits⟩ := binary?_plain wise' built
    refine derivative?_plain.mpr ?_
    rcases der with derivedX | derivedY
    · obtain ⟨fitsX, isX⟩ := derivative?_plain.mp derivedX
      obtain ⟨rfl, rfl⟩ := plain_inj isX
      obtain rfl := eq_float_of_unify? unified (.inl rfl)
      cases s <;> cases s' <;> cases a <;> rcases sizesY with rfl | ⟨fitsY, rfl⟩ <;> simp_all
    · obtain ⟨fitsY, isY⟩ := derivative?_plain.mp derivedY
      obtain ⟨rfl, rfl⟩ := plain_inj isY
      obtain rfl := eq_float_of_unify? unified (.inr rfl)
      cases s <;> cases s' <;> cases a <;> rcases sizesX with rfl | ⟨fitsX, rfl⟩ <;> simp_all

/-- Dividing the derivative of a quotient by the square of the divisor keeps its type. -/
lemma derivative?_over_square {above square quot : Ty} (typed : binary? .divide x y = some t)
    (der : t.derivative? (plain a .float) = some above)
    (squared : binary? .multiply y y = some square)
    (divided : binary? .divide above square = some quot) : quot = above := by
  rcases cases_of_binary? .divide typed with oper | ⟨s, s', k, k', kind, rfl, rfl, rfl, sizes⟩
  · cases oper with
    | scaledLeft | componentWise =>
      obtain ⟨rfl, rfl⟩ := derivative?_matrix.mp der
      cases matrixOperation .multiply (.inl rfl) squared <;>
        cases matrixOperation .divide (.inl rfl) divided <;> rfl
    | scaledRight =>
      obtain ⟨rfl, rfl⟩ := derivative?_matrix.mp der
      cases matrixOperation .divide (.inl rfl) divided <;> rfl
  · obtain ⟨_, rfl, unified, -⟩ := binary?_plain .multiply squared
    obtain ⟨-, rfl⟩ := derivative?_plain.mp der
    have num := (Kind.isNumeric_of_unify? unified).2.2
    have spreads : Spreads (plain (s'.or s') _) (plain ((s.or s').or a) .float) :=
      (spreads_plain num).trans_plain (by cases s <;> cases s' <;> cases a <;> simp_all)
    exact spreads.result_eq .divide (.inr divided)

end Ty

/-! ## Arguments of built-in functions -/

namespace Signature

open Ty

variable {size : Option Dim} {kind : Kind} {arg g : Ty} {matrix : Option Ty}

lemma bind?_eq_some {keepsInts : Bool} (bound : bind? keepsInts arg = some g) :
    ∃ size kind, arg = plain size kind ∧ kind.isNumeric
      ∧ g = plain size (if keepsInts then kind else .float) := by
  unfold bind? at bound
  split at bound
  · exact ⟨none, .int, rfl, rfl, by cases keepsInts <;> simp_all [plain, int, float]⟩
  · exact ⟨none, .float, rfl, rfl, by simp_all [plain, float]⟩
  · next size => exact ⟨some size, .int, rfl, rfl, by cases keepsInts <;> simp_all [plain]⟩
  · next size => exact ⟨some size, .float, rfl, rfl, by simp_all [plain, vec]⟩
  · cases bound

lemma plain_of_convertsTo (num : kind.isNumeric) (conv : arg.convertsTo (plain size kind)) :
    ∃ own, arg = plain size own ∧ own.isNumeric := by
  rcases convertsTo_iff.mp conv with rfl | ⟨size', rfl, same⟩
  · exact ⟨kind, rfl, num⟩
  · obtain ⟨rfl, -⟩ := plain_inj same
    exact ⟨.int, rfl, rfl⟩

lemma plain_of_fits_scalar (num : kind.isNumeric)
    (fits : fits (some (plain size kind)) matrix .genericOrScalar arg) :
    ∃ small own, arg = plain small own ∧ own.isNumeric ∧ (small = none ∨ small = size) := by
  have kinds : (plain size kind).kind? = some kind := by cases size <;> rfl
  simp only [Signature.fits, Option.any_some, Bool.or_eq_true, kinds] at fits
  rcases fits with whole | scal
  · obtain ⟨own, rfl, num⟩ := plain_of_convertsTo num whole
    exact ⟨size, own, rfl, num, .inr rfl⟩
  · have scal : arg.convertsTo (plain none kind) := scal
    obtain ⟨own, rfl, num⟩ := plain_of_convertsTo num scal
    exact ⟨none, own, rfl, num, .inl rfl⟩

/-- The arguments of a form with a generic parameter: those of generic parameters have one size, and
the others that may be scalars have it too or are scalars. -/
lemma resolve?_generic {s : Signature} {args : List Ty} {ty : Ty}
    (isGen : .generic ∈ s.parameters) (res : s.resolve? args = some ty) :
    ∃ size kind, kind.isNumeric ∧ (s.integral = false → kind = .float)
      ∧ (∀ x, (.generic, x) ∈ s.parameters.zip args → ∃ own, x = plain size own ∧ own.isNumeric)
      ∧ (∀ x, (.genericOrScalar, x) ∈ s.parameters.zip args →
        ∃ small own, x = plain small own ∧ own.isNumeric ∧ (small = none ∨ small = size))
      ∧ resultType? s.result (some (plain size kind)) (s.matrix? args) = some ty := by
  obtain ⟨cnt, gen, bound, fits, result⟩ := resolve?_eq_some.mp res
  have found : ∃ binder, binder? (s.parameters.zip args) = some binder := by
    rw [← List.map_fst_zip (Nat.le_of_eq cnt.symm)] at isGen
    obtain ⟨pair, mem, same⟩ := List.mem_map.mp isGen
    have isSome : ((s.parameters.zip args).find? fun pair => pair.1 == .generic).isSome := by
      rw [List.find?_isSome]
      exact ⟨pair, mem, by simp [same]⟩
    obtain ⟨fst, is1⟩ := Option.isSome_iff_exists.mp isSome
    exact ⟨fst.2, by simp [binder?, is1]⟩
  obtain ⟨binder, isBinder⟩ := found
  simp only [generic?, isBinder, Option.map_eq_some_iff] at bound
  obtain ⟨g, bound, rfl⟩ := bound
  obtain ⟨size, own, rfl, num, rfl⟩ := bind?_eq_some bound
  have num' : (if (s.integral && areIntegral (s.parameters.zip args))
      then own else .float).isNumeric := by
    split
    · exact num
    · rfl
  refine ⟨size, _, num', fun floats => by simp [floats], fun x mem => ?_, fun x mem => ?_, result⟩
  · exact plain_of_convertsTo num' (by simpa [Signature.fits] using fits _ mem)
  · exact plain_of_fits_scalar num' (fits _ mem)

end Signature

end ShaderAlgebra
